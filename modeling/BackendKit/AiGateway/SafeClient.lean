import BackendKit.AiLang.LanguageGuard

/-!
# Safe client

`SafeClient` (`aigateway/safe_client.go`) puts the language guard in front of any AI client. The locale
and the module come from the context of the call (`aigateway/context.go`), and only the text of the
response is handed on.

`Call` documents that the text it returns is in the requested locale when the check is strict. It is
if and only if one of the strategies of the guard has worked (`validateText_call_iff`): when all of them
have failed the guard returns the first reply with `Valid = false` and no error, and `Call` drops the
flag.
-/

open GoStd AiLang

namespace AiGateway

/-- The values that the package attaches to a context. -/
structure Context where
  locale : Option String
  module : Option String

namespace Context

/-- `context.Background()`. -/
def background : Context where
  locale := none
  module := none

def withLocale (ctx : Context) (locale : String) : Context := { ctx with locale := some locale }

def withModule (ctx : Context) (module : String) : Context := { ctx with module := some module }

/-- The locale of a context, `fr` if there is none. -/
def localeFromContext (ctx : Context) : String :=
  match ctx.locale with
  | some v => if v ≠ "" then v else "fr"
  | none => "fr"

/-- The module of a context. -/
def moduleFromContext (ctx : Context) : String :=
  match ctx.module with
  | some v => if v ≠ "" then v else "unknown"
  | none => "unknown"

theorem localeFromContext_ne_empty (ctx : Context) : ctx.localeFromContext ≠ "" := by
  unfold localeFromContext
  split
  · split
    · assumption
    · decide
  · decide

end Context

/-- What the client asks of the guard. -/
def promptInput (ctx : Context) (prompt : String) : PromptInput where
  prompt := prompt
  locale := ctx.localeFromContext
  metadata := [("module", .string ctx.moduleFromContext)]

/-- `SafeClient.ResponseDetail`. -/
def responseDetail (env : Env) (cfg : AIConfig) (ctx : Context) (prompt : String) :
    Guard (Except AiError AIResponse) :=
  generate env cfg (promptInput ctx prompt)

/-- `SafeClient.Call`. -/
def call (env : Env) (cfg : AIConfig) (ctx : Context) (prompt : String) :
    Guard (Except AiError String) := do
  match ← generate env cfg (promptInput ctx prompt) with
  | .error err => return .error (wrapError "aigateway/safe" err)
  | .ok resp => return .ok resp.text

variable {env : Env} {cfg : AIConfig} {ctx : Context} {prompt : String}

/-- The request of a client has a locale. -/
theorem normalise_promptInput (ctx : Context) (prompt : String) :
    (promptInput ctx prompt).normalise = promptInput ctx prompt :=
  if_neg ctx.localeFromContext_ne_empty

/-- A text is the text of the guard's response. -/
theorem call_eq_ok {t : Transcript} {text : String} :
    ((call env cfg ctx prompt).run t).run.1 = .ok text ↔
      ∃ raw, firstText env (promptInput ctx prompt) t.sent = .ok raw ∧
        (responseTo env cfg (promptInput ctx prompt)
          (t.sent ++ [buildPrompt (promptInput ctx prompt)]) raw).text = text := by
  have hgenerate := generate_run env cfg (promptInput ctx prompt) t
  rw [normalise_promptInput] at hgenerate
  unfold call
  rw [StateT.run_bind]
  generalize (generate env cfg (promptInput ctx prompt)).run t = result at hgenerate ⊢
  obtain ⟨reply, t'⟩ := result
  obtain rfl : reply = _ := hgenerate
  cases firstText env (promptInput ctx prompt) t.sent with
  | error err => exact ⟨(nomatch ·), fun ⟨_, h, _⟩ => nomatch h⟩
  | ok raw =>
    constructor
    · intro h
      exact ⟨raw, rfl, Except.ok.inj h⟩
    · rintro ⟨raw', hraw, rfl⟩
      cases hraw
      rfl

/-- If there is a first reply at all, then one of the strategies finds a text in the language of the
locale: the reply itself, the second attempt, or the translation. -/
def Enforceable (env : Env) (cfg : AIConfig) (input : PromptInput) (sent : List String) : Prop :=
  ∀ raw, firstText env input sent = .ok raw →
    validateText env.unicode (env.ranges .first) raw input.locale = true ∨
      (retryText env cfg input (sent ++ [buildPrompt input])).isSome ∨
      (translatedText env cfg input raw
        (sentAfterRetry cfg input (sent ++ [buildPrompt input]))).isSome

/-- Under the strict check the text that `Call` returns is in the language of the locale if and only if
a strategy of the guard works. -/
theorem validateText_call_iff (env : Env) (cfg : AIConfig) (ctx : Context) (prompt : String)
    (hstrict : cfg.strictLanguageCheck = true) (t : Transcript) :
    (∀ text, ((call env cfg ctx prompt).run t).run.1 = .ok text →
        ∀ ranges, validateText env.unicode ranges text ctx.localeFromContext = true) ↔
      Enforceable env cfg (promptInput ctx prompt) t.sent := by
  constructor
  · intro h raw hraw
    have hvalid := h _ (call_eq_ok.mpr ⟨raw, hraw, rfl⟩) (env.ranges .first)
    exact (validateText_responseTo hstrict _ _ _).mp hvalid
  · intro h text htext ranges
    obtain ⟨raw, hraw, rfl⟩ := call_eq_ok.mp htext
    exact (validateText_responseTo hstrict ranges _ _).mpr (h raw hraw)

/-- A model that answers in English is in order for a client that asks for English. -/
theorem validateText_call_english :
    defaultAIConfig.strictLanguageCheck = true ∧
      ((call (sequenceEnv [enText, enText, enText]) defaultAIConfig
          (Context.background.withLocale "en") "Analyse.").run .empty).run.1.toOption =
        some enText ∧
      ∀ text, ((call (sequenceEnv [enText, enText, enText]) defaultAIConfig
            (Context.background.withLocale "en") "Analyse.").run .empty).run.1 = .ok text →
          ∀ ranges, validateText Unicode.ascii ranges text "en" = true := by
  refine ⟨rfl, by decide +kernel, ?_⟩
  apply (validateText_call_iff (sequenceEnv [enText, enText, enText]) defaultAIConfig
    (Context.background.withLocale "en") "Analyse." rfl _).mpr
  intro raw hraw
  have hfirst : (firstText (sequenceEnv [enText, enText, enText])
      (promptInput (Context.background.withLocale "en") "Analyse.")
        Transcript.empty.sent).toOption = some enText := by
    decide +kernel
  obtain rfl : raw = enText := by
    rw [hraw] at hfirst
    exact Option.some.inj hfirst
  left
  decide +kernel

/-- The first reply, the second attempt and the translation are all in English, and a client that asked
for French gets English and no error. -/
theorem call_returns_wrong_language :
    defaultAIConfig.strictLanguageCheck = true ∧
      ((call (sequenceEnv [enText, enText, enText]) defaultAIConfig
          (Context.background.withLocale "fr") "Analyse.").run .empty).run.1.toOption =
        some enText ∧
      validateText Unicode.ascii ((sequenceEnv []).ranges .first) enText "fr" = false := by
  refine ⟨rfl, ?_, ?_⟩
  · decide +kernel
  · decide +kernel

end AiGateway
