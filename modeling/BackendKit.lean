import BackendKit.ToMathlib.StepSystem
import BackendKit.Bff.Session
import BackendKit.GoStd.SingleFlight
import BackendKit.Bff.MemoryStore
import BackendKit.Bff.PostgresStore
import BackendKit.Bff.Expiry
import BackendKit.Bff.Gateway
import BackendKit.Bff.Refresh
import BackendKit.Bff.RefreshDurable
import BackendKit.Pep.Enforcer
import BackendKit.GoStd.Base64
import BackendKit.JwtAuth.Keys
import BackendKit.JwtAuth.Jwks
import BackendKit.JwtAuth.LoneCalls
import BackendKit.JwtAuth.Published
import BackendKit.GoStd.Json
import BackendKit.GoStd.Strings
import BackendKit.JwtAuth.Claims
import BackendKit.JwtAuth.Middleware
import BackendKit.Pep.Modes
import BackendKit.Pep.Reporting
import BackendKit.Pep.Strictness
import BackendKit.Bff.PendingLogin
import BackendKit.Bff.PendingLoginPostgres
import BackendKit.ToMathlib.Tracing
import BackendKit.Bff.Lifetime
import BackendKit.Bff.Activity
import BackendKit.GoStd.Net
import BackendKit.HttpWare.KeyedRateLimit
import BackendKit.ToMathlib.TokenBucket
import BackendKit.HttpWare.Tiers
import BackendKit.HttpWare.Refusal
import BackendKit.HttpWare.Budget
import BackendKit.JwtAuth.Tenant
import BackendKit.JwtAuth.Rotation
import BackendKit.Bff.AccessToken
import BackendKit.AiNarration.Cache
import BackendKit.ToMathlib.History
import BackendKit.AiNarration.Lru
import BackendKit.Tiering.Policy
import BackendKit.Tiering.PolicyService
import BackendKit.Socrate.Scopes
import BackendKit.Socrate.ScopedTokens
import BackendKit.Socrate.ScopedCache
import BackendKit.GoStd.Float64
import BackendKit.GoStd.Any
import BackendKit.GoStd.JsonText
import BackendKit.AiLang.Validator
import BackendKit.AiLang.Translator
import BackendKit.AiGateway.SafeClient
import BackendKit.GoStd.JsonGrammar
import BackendKit.AiLang.JsonVerdict
import BackendKit.AiLang.Fragment
import BackendKit.AiGateway.ExtractJson
import BackendKit.Bff.Sealed
import BackendKit.JwtAuth.Scopes
import BackendKit.Tiering.Gate
import BackendKit.GoStd.NumberText
import BackendKit.AiLang.ValueTranslation
import BackendKit.GoStd.Reflect
import BackendKit.GoStd.Sha256
import BackendKit.Conformance.Load
import BackendKit.Conformance.Match
import BackendKit.Conformance.Rules
import BackendKit.Conformance.SelfMatch
import BackendKit.GoStd.Url
import BackendKit.Pagination.Pages
import BackendKit.Bff.Redirect
import BackendKit.Socrate.AdminPaths
import BackendKit.HttpWare.AddressKey
import BackendKit.GoStd.Reader
import BackendKit.HttpWare.BodyLimit
import BackendKit.Conformance.PublishedKeys
import BackendKit.HttpWare.StatusRecorder
import BackendKit.HttpWare.TenantRateLimit
import BackendKit.Socrate.TokenExpiry
import BackendKit.GoStd.AnyEdit
import BackendKit.Conformance.Detects
import BackendKit.GoStd.JsonTokens
import BackendKit.GoStd.Bufio
import BackendKit.Socrate.EventStream
import BackendKit.AiNarration.CacheKey
import BackendKit.Bff.TokenLifetime
import BackendKit.GoStd.Utf8
import BackendKit.Socrate.UserAgent
import BackendKit.Bff.LoginFlow
import BackendKit.GoStd.ReverseProxy
import BackendKit.Bff.Upstream
import BackendKit.Pep.Gate
