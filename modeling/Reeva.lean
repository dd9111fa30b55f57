import Reeva.Cms.SignedOnly
import Reeva.Cms.SignatureRaces
import Reeva.Cms.ActiveKey
import Reeva.Cms.Orphans
import Reeva.Cms.KeptObjects
import Reeva.Cms.Quota
import Reeva.Cms.Eligibility
import Reeva.Release.SignerResponses
import Reeva.Cms.ProductIsolation
import Reeva.Licensing.Revocation
import Reeva.Auth.Throttling
import Reeva.Cms.DefaultProduct
import Reeva.Cms.LiveVersions
import Reeva.Cms.SoftDeletion
import Reeva.Licensing.KeyPair
import Reeva.Signer.Service
import Reeva.Legacy.EncryptedOnce
import Reeva.Release.RequestIdentity
import Reeva.Cms.SlugAllocation
import Reeva.Storage.Containment
import Reeva.Storage.LocalUpload
import Reeva.Storage.ProviderService
import Reeva.Storage.ResolvedSettings
import Reeva.Storage.ProviderForms
import Reeva.Storage.PartialUpdates
import Reeva.Storage.EditForm
import Reeva.Cms.NameSync
import Reeva.Cms.VersionFilter
import Reeva.Cms.PublicErrors
import Reeva.Cms.FileNames
import Reeva.Cms.PackageTypes
import Reeva.Cms.SignableSize
import Reeva.Storage.DefaultSelection
import Reeva.Release.VersionGate
import Reeva.Cms.ManifestAgreement
import Reeva.Release.DownloadHeaders
import Reeva.Storage.ClientCache
import Reeva.Users.AddressLookup
import Reeva.Interleaving.Joint
import Reeva.Interleaving.Unhindered
import Reeva.Signer.Authorisation
import Reeva.Signer.FrozenRequests
import Reeva.Signer.Expiry
import Reeva.Users.PasswordResets
import Reeva.Users.SessionRevocation
import Reeva.Cms.Streams
import Reeva.Cms.ReservationCleanup
import Reeva.Release.SignerAgreement
import Reeva.Legacy.Faithful
import Reeva.Cms.FileRoute
