import Gamely.Calls
import Gamely.Interleaving
import Gamely.Relying
import Gamely.Sequential
import Gamely.Json
import Gamely.JsonRoundTrip
import Gamely.DateTimes
import Gamely.DateTimeRoundTrip
import Gamely.EmailJobs
import Gamely.ExpiringStore
import Gamely.Stores
import Gamely.Services
import Gamely.TokenService
import Gamely.EmailFilter
import Gamely.AuthService
import Gamely.OAuthService
import Gamely.Requests
import Gamely.Footprints
import Gamely.SessionContract
import Gamely.SessionMoves
import Gamely.TokenFamilies
import Gamely.SessionLists
import Gamely.ReuseDetection
import Gamely.SessionIndex
import Gamely.PasswordChange
import Gamely.SessionMachine
import Gamely.SessionRefinement
import Gamely.CodeContract
import Gamely.CodeMoves
import Gamely.CodeGuessing
import Gamely.CodeReplay
import Gamely.FilterContract
import Gamely.FilterMoves
import Gamely.FilterTrust
import Gamely.FilterLookups
import Gamely.FilterRaces
import Gamely.FilterFaults
import Gamely.RebuildContract
import Gamely.RebuildExclusion
import Gamely.JobCodec
import Gamely.Broker
import Gamely.MailWorker
import Gamely.MailContract
import Gamely.MailMoves
import Gamely.MailCopies
import Gamely.MailWeights
import Gamely.MailConservation
import Gamely.MailSettling
import Gamely.FailedRefresh
import Gamely.FailedPasswordChange
import Gamely.Logs
import Gamely.Challenges
import Gamely.ChallengeUse
import Gamely.AccountContract
import Gamely.AccountMoves
import Gamely.SignIns
import Gamely.SignInRaces
import Gamely.Credentials
import Gamely.Verification
import Gamely.LinkedAccounts
import Gamely.SignupOutcome
import Gamely.Enumeration
import Gamely.Placeholders
import Gamely.Interpolation
import Gamely.YamlSource
import Gamely.YamlLayers
import Gamely.EnvironmentManager
import Gamely.SettingsPrecedence
import Gamely.JobRoundTrip
import Gamely.Interrupted
import Gamely.Windows
import Gamely.CodeBook
import Gamely.CodeLifetime
import Gamely.FailedSignup
import Gamely.FailedResend
import Gamely.FilterMarker
import Gamely.RateLimiter
import Gamely.DeliveryFailures
import Gamely.RebuildFailures
import Gamely.Container
import Gamely.ContainerContract
import Gamely.ContainerMoves
import Gamely.ApplicationContainer
import Gamely.Lifetimes
import Gamely.Disposal
import Gamely.Digits
import Gamely.IPAddresses
import Gamely.IPAddressRoundTrip
import Gamely.ClientAddress
import Gamely.UUIDs
import Gamely.RedisKeys
import Gamely.Simulation
import Gamely.Trusting
import Gamely.RedisCommands
import Gamely.RedisClient
import Gamely.RedisStores
import Gamely.RedisCalls
import Gamely.RedisSpelling
import Gamely.KeyLifetimes
import Gamely.RedisRefinement
import Gamely.Pasts
import Gamely.Replays
import Gamely.Mirroring
import Gamely.HttpMessages
import Gamely.AuthController
import Gamely.HttpRefinement
import Gamely.HttpResponses
import Gamely.Grants
import Gamely.HttpCookies
import Gamely.HttpAuthorization
import Gamely.SessionOrigins
import Gamely.AccountWrites
import Gamely.AccountDirectory
import Gamely.CodeMails
import Gamely.Translations
import Gamely.MailDelivery
