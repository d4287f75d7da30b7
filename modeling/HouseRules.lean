import HouseRules.Condition.Writer
import HouseRules.Deal.Schedule
import HouseRules.Deal.Writer
import HouseRules.Game.CrazyEights
import HouseRules.Session.Autoplay
import HouseRules.Session.View
import HouseRules.Symbols
import HouseRules.Proofs.Argument.Typing
import HouseRules.Proofs.Board.Exchange
import HouseRules.Proofs.CrazyEights.Matching
import HouseRules.Proofs.Graph.Closed
import HouseRules.Proofs.Judge.Chain
import HouseRules.Proofs.Judge.Nesting
import HouseRules.Proofs.Judge.Question
import HouseRules.Proofs.Library
import HouseRules.Proofs.Operation.Changes
import HouseRules.Proofs.Session.Asking
import HouseRules.Proofs.Session.Finished
import HouseRules.Proofs.Session.Offers
import HouseRules.Proofs.Session.Options
import HouseRules.Proofs.Session.Reset
import HouseRules.Proofs.Session.Settling
import HouseRules.Proofs.Session.View
import HouseRules.Proofs.Strict.Game
import HouseRules.Proofs.Strict.Session
import HouseRules.Proofs.Table.Neighbours
import HouseRules.Proofs.Record
import HouseRules.Proofs.Deck
import HouseRules.Proofs.Layout
import HouseRules.Proofs.Board.Addressing
import HouseRules.Proofs.Text.Quoted
import HouseRules.Proofs.Text.Numeral
import HouseRules.Proofs.Scope
import HouseRules.Proofs.Token
import HouseRules.Proofs.Condition
import HouseRules.Proofs.Layout.Presentation
import HouseRules.Proofs.Library.Entries
import HouseRules.Proofs.Argument.Consumption
import HouseRules.Proofs.Judge.Repetition
import HouseRules.Proofs.Session.Entering
import HouseRules.Proofs.Document.Normal
import HouseRules.Proofs.Ranking
import HouseRules.Proofs.Deal.Block
