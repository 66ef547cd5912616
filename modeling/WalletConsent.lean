import WalletConsent.Display.Action
import WalletConsent.Request.RoundTrip
import WalletConsent.Session.Call
import WalletConsent.Proofs.Layout
import WalletConsent.Proofs.Sizes
import WalletConsent.Proofs.Offers
import WalletConsent.Proofs.Scenes
import WalletConsent.Proofs.Reachable
import WalletConsent.Proofs.Walk
import WalletConsent.Proofs.Itinerary
import WalletConsent.Proofs.AmountText
import WalletConsent.Proofs.AddressPieces
import WalletConsent.Proofs.Cursor
import WalletConsent.Proofs.Enforcement
import WalletConsent.Proofs.Budget
import WalletConsent.Proofs.DecisionTable
import WalletConsent.Proofs.Accounting
import WalletConsent.Proofs.Visibility
import WalletConsent.Proofs.Readers
import WalletConsent.Proofs.WireFormat
import WalletConsent.Proofs.Acceptance
import WalletConsent.Proofs.Dialogue
import WalletConsent.Proofs.Approval
import WalletConsent.Proofs.DatumWarning
import WalletConsent.Proofs.DistinctAmounts
import WalletConsent.Proofs.Pagination
import WalletConsent.Proofs.GreedyPages
import WalletConsent.Proofs.Driving
import WalletConsent.Proofs.ReasonableAccounts
import WalletConsent.Proofs.Writings
import WalletConsent.Proofs.Handlers
import WalletConsent.Proofs.StepsOnce
import WalletConsent.Proofs.Actions
import WalletConsent.Proofs.FactOrder
import WalletConsent.Request.Encoder
import WalletConsent.Proofs.BufferBounds
import WalletConsent.Proofs.AmountExact
import WalletConsent.Proofs.IdentifierText
import WalletConsent.Proofs.Identifiers
