import LoxLang.Main
import LoxLang.Proofs.Eval.Locality
import LoxLang.Proofs.Parse.Accepts
import LoxLang.Proofs.Session.Depth
import LoxLang.Proofs.Session.LoopFree
import LoxLang.Proofs.Session.Pieces
import LoxLang.Proofs.Session.Safe
import LoxLang.Proofs.Session.Visible
import LoxLang.Proofs.Token.Spans
import LoxLang.Proofs.Store.Forest
import LoxLang.Proofs.Eval.Forest
import LoxLang.Proofs.Session.Forest
import LoxLang.Proofs.Parse.Shape
import LoxLang.Proofs.Session.Names
import LoxLang.Proofs.Eval.Output
import LoxLang.Proofs.Session.Echo
import LoxLang.Proofs.Session.Limit
import LoxLang.Proofs.Session.Origin
import LoxLang.Proofs.Command.Prompt
import LoxLang.Proofs.Command.Status
import LoxLang.Proofs.Session.InOrder
import LoxLang.Proofs.Parse.Recovery
import LoxLang.Proofs.Parse.Walk
import LoxLang.Proofs.Eval.ForLoop
import LoxLang.Proofs.Session.Desugar
import LoxLang.Proofs.Token.Joined
import LoxLang.Proofs.Command.Listing
import LoxLang.Proofs.Session.Cells
import LoxLang.Proofs.Command.Reprint
