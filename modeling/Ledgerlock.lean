import Ledgerlock.Mvcc.Serial
import Ledgerlock.Deployment
import Ledgerlock.Routes
import Ledgerlock.Spec.Indexes
import Ledgerlock.Spec.Balances
import Ledgerlock.Spec.Idempotency
import Ledgerlock.Spec.Tamper
import Ledgerlock.Spec.Freeze
import Ledgerlock.Spec.Linearizability
import Ledgerlock.Spec.Isolation
import Ledgerlock.Spec.Contention
import Ledgerlock.Spec.AllOrNothing
import Ledgerlock.Spec.Conflicts
import Ledgerlock.Spec.Currencies
import Ledgerlock.Spec.Provisioning
import Ledgerlock.Spec.Tokens
import Ledgerlock.Spec.Spending
import Ledgerlock.Spec.Kinds
import Ledgerlock.Schema.Keys
import Ledgerlock.Spec.AppendOnly
import Ledgerlock.Spec.Privacy
import Ledgerlock.Spec.Visibility
import Ledgerlock.Spec.Paging
import Ledgerlock.Spec.Views
import Ledgerlock.Spec.Exactness
import Ledgerlock.Spec.Settings
import Ledgerlock.Schema.ToBson
import Ledgerlock.Spec.Enumeration
import Ledgerlock.Service
import Ledgerlock.Spec.Registration
import Ledgerlock.Spec.Integrity
import Ledgerlock.Spec.SignIn
import Ledgerlock.Spec.Bank
import Ledgerlock.Spec.Initialisation
import Ledgerlock.Spec.Decision
import Ledgerlock.Spec.Grounds
