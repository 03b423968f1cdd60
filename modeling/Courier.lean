import Courier.Client.Session
import Courier.Config.Basic
import Courier.Proofs.Auth.Authorizing
import Courier.Proofs.Auth.InForce
import Courier.Proofs.Auth.Resolution
import Courier.Proofs.Auth.Reuse
import Courier.Proofs.Wire.Assembly
import Courier.Proofs.Auth.Renewal
import Courier.Proofs.Auth.Waiting
import Courier.Proofs.Auth.Rollback
import Courier.Proofs.Auth.Storm
import Courier.Proofs.Time.Days
import Courier.Proofs.Time.Stamps
import Courier.Proofs.Time.Spans
import Courier.Proofs.Json.Texts
import Courier.Proofs.Json.Numbers
import Courier.Proofs.Json.Laying
import Courier.Proofs.Json.Records
import Courier.Proofs.Auth.Stored
import Courier.Proofs.Auth.Restoring
import Courier.Proofs.Wire.Depiction
import Courier.Proofs.Client.Headers
import Courier.Proofs.Auth.Issuance
import Courier.Proofs.Client.Errand
import Courier.Proofs.Client.Sending
import Courier.Proofs.Wire.Body
import Courier.Proofs.Wire.Growth
import Courier.Proofs.Wire.Conflicts
import Courier.Proofs.Wire.Faithful
import Courier.Proofs.Client.Calls
import Courier.Proofs.Client.Waits
import Courier.Proofs.Client.Retrying
import Courier.Proofs.Client.Respite
import Courier.Proofs.Text.Base64
import Courier.Proofs.Auth.Payloads
import Courier.Proofs.Store.Places
import Courier.Proofs.Auth.Descent
import Courier.Proofs.Auth.Margin
import Courier.Proofs.Auth.Parameters
import Courier.Proofs.Toml.Names
import Courier.Proofs.Dictionaries
import Courier.Proofs.Config.Merging
import Courier.Proofs.Client.StandingHeaders
import Courier.Proofs.Profile.Including
import Courier.Proofs.Auth.Expiry
