import Restaking.Chain
import Restaking.Fixture
import Restaking.Registry.Query
import Restaking.Proofs.Growth
import Restaking.Proofs.Backing
import Restaking.Proofs.Batches
import Restaking.Proofs.Outcome
import Restaking.Proofs.Lifecycle
import Restaking.Proofs.Redelivery
import Restaking.Proofs.Addresses
import Restaking.Proofs.Messages
import Restaking.Proofs.Heights
import Restaking.Proofs.Defaults
import Restaking.Proofs.Authority
import Restaking.Proofs.Versions
import Restaking.Proofs.Spellings
import Restaking.Proofs.Conflicts
import Restaking.Proofs.Registrations
import Restaking.Proofs.Committees
import Restaking.Proofs.Charges
import Restaking.Proofs.Agreement
import Restaking.Proofs.Listings
import Restaking.Proofs.Independence
import Restaking.Proofs.Settings
import Restaking.Proofs.Envelopes
import Restaking.Proofs.Admission
import Restaking.Proofs.Transitions
import Restaking.Proofs.Commissions
import Restaking.Proofs.Faults
import Restaking.Proofs.Rearrangements
import Restaking.Proofs.Quorums
import Restaking.Proofs.Instants
import Restaking.Proofs.Storage
import Restaking.Proofs.Displays
import Restaking.Proofs.Meters
import Restaking.Proofs.KeyTexts
