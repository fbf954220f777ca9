import MbararaAuction.Proofs.Accounts
import MbararaAuction.Proofs.Activations
import MbararaAuction.Proofs.AdminEdits
import MbararaAuction.Proofs.BidRecords
import MbararaAuction.Proofs.Closers
import MbararaAuction.Proofs.Conclusions
import MbararaAuction.Proofs.ControlRoom
import MbararaAuction.Proofs.Deadlines
import MbararaAuction.Proofs.Deliveries
import MbararaAuction.Proofs.DisputePrivacy
import MbararaAuction.Proofs.Exports
import MbararaAuction.Proofs.Links
import MbararaAuction.Proofs.Outbid
import MbararaAuction.Proofs.Payments
import MbararaAuction.Proofs.Portal
import MbararaAuction.Proofs.RoleProfiles
import MbararaAuction.Proofs.Secrecy
import MbararaAuction.Proofs.Settlements
import MbararaAuction.Proofs.StandingSales
import MbararaAuction.Proofs.StatusLogs
import MbararaAuction.Proofs.TypedBids
