import BackendKit.AiLang.Translator

/-!
# Language guard

`LanguageGuard.Generate` (`ailang/language_guard.go`): ask the model with a language directive, check
the language of the reply, ask once more with a reinforced prompt, and translate the first reply if
that did not help either. When every strategy has failed the first reply is returned with
`Valid = false` and no error.

The strategies are definitions of their own (`retry`, `fallback`), and each has a lemma that says when
it is accepted. Log lines are left out; what goes to the `EventReporter` is kept.
-/

open GoStd

namespace AiLang

/-- The result of `Generate`. -/
structure AIResponse where
  text : String
  /-- The locale that was asked for. -/
  language : String
  raw : String
  valid : Bool
  retryCount : ℕ
  deriving DecidableEq

/-- How the language is enforced. -/
structure AIConfig where
  maxRetries : ℤ
  enableTranslation : Bool
  strictLanguageCheck : Bool

/-- The production defaults. -/
def defaultAIConfig : AIConfig where
  maxRetries := 1
  enableTranslation := true
  strictLanguageCheck := true

/-- A call of `EventReporter.CaptureMessage`, with its tags. -/
structure Report where
  msg : String
  locale : String
  retryCount : String
  module : String

/-- What the pipeline has done so far. -/
structure Transcript where
  /-- The prompts sent to the model. -/
  sent : List String
  reports : List Report

/-- Nothing has been done yet. -/
def Transcript.empty : Transcript where
  sent := []
  reports := []

/-- A computation of the guard. -/
abbrev Guard (α : Type) := StateM Transcript α

/-- Send prompts to the model. -/
def ask {α : Type} (query : Ask α) : Guard α := fun t =>
  let (result, sent) := (query.run t.sent).run
  (result, { t with sent })

@[simp] theorem run_ask {α : Type} (query : Ask α) (t : Transcript) :
    (ask query).run t =
      pure ((query.run t.sent).run.1, { t with sent := (query.run t.sent).run.2 }) := rfl

/-- The module tag of the metadata. -/
def moduleOf (input : PromptInput) : String :=
  match input.metadata.lookup "module" with
  | some (.string m) => if m ≠ "" then m else "unknown"
  | _ => "unknown"

/-- `CaptureMessage` with the tags of a request. -/
def captureMessage (msg : String) (input : PromptInput) (retryCount : ℕ) : Guard Unit :=
  modify fun t =>
    { t with
      reports := t.reports ++
        [{ msg, locale := input.locale, retryCount := toString retryCount, module := moduleOf input }] }

@[simp] theorem run_captureMessage (msg : String) (input : PromptInput) (retryCount : ℕ)
    (t : Transcript) :
    (captureMessage msg input retryCount).run t =
      pure ((), { t with
        reports := t.reports ++
          [{ msg, locale := input.locale, retryCount := toString retryCount,
             module := moduleOf input }] }) := rfl

/-- Report a reply in the wrong language. -/
def emitMismatch (input : PromptInput) (retryCount : ℕ) : Guard Unit :=
  captureMessage "AI language mismatch" input retryCount

/-- The text of a strategy, without white space around it, if it is held to be in the language of the
locale. -/
def accepted (env : Env) (loop : Loop) (locale : String) : Translation → Option String
  | (_, some _) => none
  | (text, none) =>
    if trimSpace text ≠ "" ∧ validateText env.unicode (env.ranges loop) (trimSpace text) locale then
      some (trimSpace text)
    else none

/-- A reply in the form of a translation. -/
def ofReply : Except AiError String → Translation
  | .error err => ("", some err)
  | .ok text => (text, none)

/-- Ask again with the reinforced prompt. The second component says whether the reply is accepted. -/
def retry (env : Env) (cfg : AIConfig) (input : PromptInput) (resp : AIResponse) :
    Guard (AIResponse × Bool) := do
  if 0 < cfg.maxRetries then
    let reply ← ask (env.call (buildRetryPrompt input))
    let resp := { resp with retryCount := 1 }
    match accepted env .retry input.locale (ofReply reply) with
    | some retryRaw =>
      return ({ resp with text := retryRaw, raw := retryRaw, valid := true }, true)
    | none =>
      emitMismatch input 1
      return (resp, false)
  else return (resp, false)

/-- Translate the first reply. The second component says whether the translation is accepted. -/
def fallback (env : Env) (cfg : AIConfig) (input : PromptInput) (raw : String) (resp : AIResponse) :
    Guard (AIResponse × Bool) := do
  if cfg.enableTranslation then
    let reply ← ask (translate env raw input.locale)
    match accepted env .translated input.locale reply with
    | some translated =>
      captureMessage "AI language mismatch — translation fallback used" input resp.retryCount
      return ({ resp with text := translated, valid := true }, true)
    | none => return (resp, false)
  else return (resp, false)

/-- The translation, or the response marked as invalid. -/
def lastResort (env : Env) (cfg : AIConfig) (input : PromptInput) (raw : String) (resp : AIResponse) :
    Guard AIResponse := do
  match ← fallback env cfg input raw resp with
  | (resp, true) => return resp
  | (resp, false) =>
    captureMessage "AI language enforcement failed — all strategies exhausted" input resp.retryCount
    return { resp with valid := false }

/-- The strategies after a first reply in the wrong language. -/
def enforce (env : Env) (cfg : AIConfig) (input : PromptInput) (raw : String) (resp : AIResponse) :
    Guard AIResponse := do
  emitMismatch input 0
  match ← retry env cfg input resp with
  | (resp, true) => return resp
  | (resp, false) => lastResort env cfg input raw resp

/-- The request with the default locale filled in. -/
def PromptInput.normalise (input : PromptInput) : PromptInput :=
  if input.locale = "" then { input with locale := "fr" } else input

/-- The first attempt: the reply without white space around it, which must not be blank. -/
def first (env : Env) (input : PromptInput) : Guard (Except AiError String) := do
  match ← ask (env.call (buildPrompt input)) with
  | .error err => return .error (wrapError "ailang: generate" err)
  | .ok reply =>
    if trimSpace reply = "" then
      return .error (.leaf "ailang: generate: LLM returned empty response")
    else return .ok (trimSpace reply)

/-- The response with the first reply as its text. -/
def firstResponse (input : PromptInput) (raw : String) : AIResponse :=
  { text := raw, language := input.locale, raw, valid := true, retryCount := 0 }

/-- `LanguageGuard.Generate`. -/
def generate (env : Env) (cfg : AIConfig) (request : PromptInput) :
    Guard (Except AiError AIResponse) := do
  let input := request.normalise
  match ← first env input with
  | .error err => return .error err
  | .ok raw =>
    let resp := firstResponse input raw
    if !cfg.strictLanguageCheck || validateText env.unicode (env.ranges .first) raw input.locale then
      return .ok resp
    else return .ok (← enforce env cfg input raw resp)

/-! ### What the strategies yield -/

section Strategies

variable (env : Env) (cfg : AIConfig) (input : PromptInput)

/-- The outcome of the first attempt. -/
def firstText (sent : List String) : Except AiError String :=
  ((first env input).run { sent, reports := [] }).run.1

/-- The text of the second attempt, if there is one and it is accepted. -/
def retryText (sent : List String) : Option String :=
  if 0 < cfg.maxRetries then
    accepted env .retry input.locale (ofReply (env.caller (sent ++ [buildRetryPrompt input])))
  else none

/-- The prompts sent by the end of the second attempt. -/
def sentAfterRetry (sent : List String) : List String :=
  if 0 < cfg.maxRetries then sent ++ [buildRetryPrompt input] else sent

/-- The response after the second attempt has been counted. -/
def retried (resp : AIResponse) : AIResponse :=
  if 0 < cfg.maxRetries then { resp with retryCount := 1 } else resp

/-- The translation of a reply, if there is one and it is accepted. -/
def translatedText (raw : String) (sent : List String) : Option String :=
  if cfg.enableTranslation then
    accepted env .translated input.locale ((translate env raw input.locale).run sent).run.1
  else none

variable {env cfg input}

/-- An accepted text has passed the check. -/
theorem validateText_of_accepted {loop : Loop} {locale text : String} {reply : Translation}
    (h : accepted env loop locale reply = some text) (ranges : Any.Ranges) :
    validateText env.unicode ranges text locale = true := by
  obtain ⟨original, err⟩ := reply
  cases err with
  | some err => cases h
  | none =>
    obtain ⟨⟨_, hvalid⟩, htext⟩ := (Option.ite_none_right_eq_some).mp h
    cases htext
    rw [validateText_ranges _ ranges (env.ranges loop)]
    exact hvalid

theorem validateText_of_retryText {sent : List String} {text : String}
    (h : retryText env cfg input sent = some text) (ranges : Any.Ranges) :
    validateText env.unicode ranges text input.locale = true :=
  validateText_of_accepted ((Option.ite_none_right_eq_some).mp h).2 ranges

theorem validateText_of_translatedText {raw : String} {sent : List String} {text : String}
    (h : translatedText env cfg input raw sent = some text) (ranges : Any.Ranges) :
    validateText env.unicode ranges text input.locale = true :=
  validateText_of_accepted ((Option.ite_none_right_eq_some).mp h).2 ranges

@[simp] theorem run_first (t : Transcript) :
    (first env input).run t =
      pure (firstText env input t.sent, { t with sent := t.sent ++ [buildPrompt input] }) := by
  unfold firstText first
  cases hreply : env.caller (t.sent ++ [buildPrompt input]) with
  | error err => simp [hreply]
  | ok reply =>
    by_cases hblank : trimSpace reply = ""
    · simp [hreply, hblank]
    · simp [hreply, hblank]

variable (env cfg input)

theorem retry_run (resp : AIResponse) (t : Transcript) :
    ((retry env cfg input resp).run t).run.1 =
        (retryText env cfg input t.sent).elim (retried cfg resp, false)
          (fun text => ({ retried cfg resp with text, raw := text, valid := true }, true)) ∧
      ((retry env cfg input resp).run t).run.2.sent = sentAfterRetry cfg input t.sent := by
  unfold retry retryText sentAfterRetry retried
  split
  · cases haccepted : accepted env .retry input.locale
        (ofReply (env.caller (t.sent ++ [buildRetryPrompt input]))) with
    | none => simp [emitMismatch, haccepted]
    | some text => simp [haccepted]
  · exact ⟨rfl, rfl⟩

theorem fallback_run (raw : String) (resp : AIResponse) (t : Transcript) :
    ((fallback env cfg input raw resp).run t).run.1 =
      (translatedText env cfg input raw t.sent).elim (resp, false)
        (fun text => ({ resp with text, valid := true }, true)) := by
  unfold fallback translatedText
  split
  · cases haccepted : accepted env .translated input.locale
        ((translate env raw input.locale).run t.sent).run.1 with
    | none => simp [haccepted]
    | some text => simp [haccepted]
  · rfl

theorem lastResort_run (raw : String) (resp : AIResponse) (t : Transcript) :
    ((lastResort env cfg input raw resp).run t).run.1 =
      (translatedText env cfg input raw t.sent).elim { resp with valid := false }
        (fun text => { resp with text, valid := true }) := by
  unfold lastResort
  rw [StateT.run_bind]
  have hfallback := fallback_run env cfg input raw resp t
  generalize (fallback env cfg input raw resp).run t = result at hfallback ⊢
  obtain ⟨⟨resp₁, ok⟩, t₁⟩ := result
  cases htext : translatedText env cfg input raw t.sent with
  | none =>
    rw [htext] at hfallback
    cases hfallback
    rfl
  | some text =>
    rw [htext] at hfallback
    cases hfallback
    rfl

/-- The second attempt counts first, then the translation; without either the text stays what it was. -/
def enforced (raw : String) (resp : AIResponse) (sent : List String) : AIResponse :=
  (retryText env cfg input sent).elim
    ((translatedText env cfg input raw (sentAfterRetry cfg input sent)).elim
      { retried cfg resp with valid := false }
      (fun text => { retried cfg resp with text, valid := true }))
    (fun text => { retried cfg resp with text, raw := text, valid := true })

theorem enforce_run (raw : String) (resp : AIResponse) (t : Transcript) :
    ((enforce env cfg input raw resp).run t).run.1 = enforced env cfg input raw resp t.sent := by
  unfold enforce emitMismatch enforced
  rw [StateT.run_bind, run_captureMessage, pure_bind]
  -- Reporting the mismatch sends nothing.
  generalize ht : ({ t with reports := t.reports ++ _ } : Transcript) = t₁
  have hsent : t.sent = t₁.sent := by rw [← ht]
  rw [hsent, StateT.run_bind]
  obtain ⟨hretry, hsent₁⟩ := retry_run env cfg input resp t₁
  generalize (retry env cfg input resp).run t₁ = result at hretry hsent₁ ⊢
  obtain ⟨⟨resp₁, ok⟩, t₂⟩ := result
  cases htext : retryText env cfg input t₁.sent with
  | none =>
    rw [htext] at hretry
    cases hretry
    rw [← hsent₁]
    exact lastResort_run env cfg input raw (retried cfg resp) t₂
  | some text =>
    rw [htext] at hretry
    cases hretry
    rfl

/-- The response to a first reply, when `sent` are the prompts up to it. -/
def responseTo (sent : List String) (raw : String) : AIResponse :=
  if !cfg.strictLanguageCheck || validateText env.unicode (env.ranges .first) raw input.locale then
    firstResponse input raw
  else
    enforced env cfg input raw (firstResponse input raw) sent

/-- `Generate` fails only if the first attempt does. -/
theorem generate_run (request : PromptInput) (t : Transcript) :
    ((generate env cfg request).run t).run.1 =
      (firstText env request.normalise t.sent).map
        (responseTo env cfg request.normalise (t.sent ++ [buildPrompt request.normalise])) := by
  unfold generate
  rw [StateT.run_bind, run_first, pure_bind]
  cases firstText env request.normalise t.sent with
  | error err => rfl
  | ok raw =>
    rw [Except.map, responseTo, ← enforce_run env cfg request.normalise raw _
      { t with sent := t.sent ++ [buildPrompt request.normalise] }]
    dsimp only
    split
    · rfl
    · rfl

variable {env cfg input}

/-! ### The prompts of a request -/

/-- A text begins as its first part does. -/
theorem head?_toList_append {s t : String} {c : Char} (h : s.toList.head? = some c) :
    (s ++ t).toList.head? = some c := by
  rw [String.toList_append, List.head?_append, h]
  rfl

theorem head_buildPrompt (input : PromptInput) : (buildPrompt input).toList.head? = some 'O' := by
  unfold buildPrompt
  rw [String.intercalate_cons_cons]
  exact head?_toList_append (head?_toList_append (by simp))

theorem head_buildRetryPrompt (input : PromptInput) :
    (buildRetryPrompt input).toList.head? = some '⚠' := by
  unfold buildRetryPrompt
  rw [String.intercalate_cons_cons]
  exact head?_toList_append (head?_toList_append (by simp))

theorem head_buildTranslationPrompt (text locale : String) :
    (buildTranslationPrompt text locale).toList.head? = some 'T' := by
  unfold buildTranslationPrompt
  rw [String.intercalate_cons_cons]
  refine head?_toList_append (head?_toList_append (head?_toList_append (head?_toList_append ?_)))
  show "Translate the following text into ".toList.head? = some 'T'
  simp

/-- A request for a translation is not a reinforced prompt. -/
theorem ne_buildRetryPrompt {locale prompt : String} (h : IsTranslationPrompt locale prompt)
    (input : PromptInput) : prompt ≠ buildRetryPrompt input := by
  obtain ⟨text, rfl⟩ := h
  intro heq
  have hhead := head_buildTranslationPrompt text locale
  rw [heq, head_buildRetryPrompt] at hhead
  exact absurd hhead (by decide)

theorem buildPrompt_ne_buildRetryPrompt (input : PromptInput) :
    buildPrompt input ≠ buildRetryPrompt input := by
  intro heq
  have hhead := head_buildPrompt input
  rw [heq, head_buildRetryPrompt] at hhead
  exact absurd hhead (by decide)

variable (env cfg input)

theorem ask_sends {α : Type} {p : String → Prop} {query : Ask α} (h : SendsOnly p query) :
    StateLog.Appends Transcript.sent p (ask query) :=
  fun t => h t.sent

theorem fallback_sends (raw : String) (resp : AIResponse) :
    StateLog.Appends Transcript.sent (IsTranslationPrompt input.locale)
      (fallback env cfg input raw resp) := by
  unfold fallback
  split
  · refine .bind (ask_sends (translate_sendsOnly env input.locale raw)) fun reply => ?_
    split
    · exact .bind (.of_eq fun _ => rfl) fun _ => .pure _
    · exact .pure _
  · exact .pure _

theorem lastResort_sends (raw : String) (resp : AIResponse) :
    StateLog.Appends Transcript.sent (IsTranslationPrompt input.locale)
      (lastResort env cfg input raw resp) := by
  unfold lastResort
  refine .bind (fallback_sends env cfg input raw resp) ?_
  rintro ⟨resp', ok⟩
  cases ok with
  | true => exact .pure _
  | false => exact .bind (.of_eq fun _ => rfl) fun _ => .pure _

/-- After the reinforced prompt only translations are asked for. -/
theorem enforce_sends (raw : String) (resp : AIResponse) (t : Transcript) :
    ∃ new, ((enforce env cfg input raw resp).run t).run.2.sent =
        sentAfterRetry cfg input t.sent ++ new ∧
      ∀ prompt ∈ new, IsTranslationPrompt input.locale prompt := by
  unfold enforce emitMismatch
  rw [StateT.run_bind, run_captureMessage, pure_bind]
  generalize ht : ({ t with reports := t.reports ++ _ } : Transcript) = t₁
  have hsent : t.sent = t₁.sent := by rw [← ht]
  rw [hsent, StateT.run_bind]
  obtain ⟨-, hsent₁⟩ := retry_run env cfg input resp t₁
  generalize (retry env cfg input resp).run t₁ = result at hsent₁ ⊢
  obtain ⟨⟨resp₁, ok⟩, t₂⟩ := result
  rw [← hsent₁]
  cases ok with
  | true => exact ⟨[], (List.append_nil _).symm, fun _ h => nomatch h⟩
  | false => exact lastResort_sends env cfg input raw resp₁ t₂

/-- The responses of the strategies all have the same count. -/
theorem enforce_retryCount (raw : String) (resp : AIResponse) (t : Transcript) :
    ((enforce env cfg input raw resp).run t).run.1.retryCount = (retried cfg resp).retryCount := by
  rw [enforce_run, enforced]
  cases retryText env cfg input t.sent with
  | some text => rfl
  | none =>
    cases translatedText env cfg input raw (sentAfterRetry cfg input t.sent) with
    | some text => rfl
    | none => rfl

/-- The reinforced prompts are counted. -/
theorem count_sentAfterRetry (sent : List String) :
    ∃ new, sentAfterRetry cfg input sent = sent ++ new ∧
      ∀ raw, new.count (buildRetryPrompt input) = (retried cfg (firstResponse input raw)).retryCount := by
  unfold sentAfterRetry retried
  split
  · exact ⟨[buildRetryPrompt input], rfl, fun _ => List.count_singleton_self⟩
  · exact ⟨[], (List.append_nil _).symm, fun _ => rfl⟩

/-- The prompts that a request sends, and how often the reinforced one is among them. -/
theorem generate_sends (request : PromptInput) (t : Transcript) :
    ∃ new, ((generate env cfg request).run t).run.2.sent = t.sent ++ new ∧
      ∀ resp, ((generate env cfg request).run t).run.1 = .ok resp →
        new.count (buildRetryPrompt request.normalise) = resp.retryCount := by
  have hfirst : [buildPrompt request.normalise].count (buildRetryPrompt request.normalise) = 0 :=
    List.count_eq_zero.mpr fun h =>
      buildPrompt_ne_buildRetryPrompt request.normalise (List.mem_singleton.mp h).symm
  unfold generate
  rw [StateT.run_bind, run_first, pure_bind]
  cases firstText env request.normalise t.sent with
  | error err => exact ⟨[buildPrompt request.normalise], rfl, fun resp h => nomatch h⟩
  | ok raw =>
    dsimp only
    split
    · refine ⟨[buildPrompt request.normalise], rfl, ?_⟩
      intro resp hresp
      cases hresp
      exact hfirst
    · generalize ht : ({ t with sent := t.sent ++ [buildPrompt request.normalise] } : Transcript) = t₁
      have hsent : t₁.sent = t.sent ++ [buildPrompt request.normalise] := by rw [← ht]
      obtain ⟨translations, hsent₁, htranslations⟩ :=
        enforce_sends env cfg request.normalise raw (firstResponse request.normalise raw) t₁
      obtain ⟨retries, hretries, hcount⟩ := count_sentAfterRetry cfg request.normalise t₁.sent
      refine ⟨[buildPrompt request.normalise] ++ retries ++ translations, ?_, ?_⟩
      · rw [← List.append_assoc, ← List.append_assoc, ← hsent, ← hretries]
        exact hsent₁
      · intro resp hresp
        cases hresp
        have htranslations₀ : translations.count (buildRetryPrompt request.normalise) = 0 :=
          List.count_eq_zero.mpr fun h => ne_buildRetryPrompt (htranslations _ h) _ rfl
        rw [List.count_append, List.count_append, hfirst, htranslations₀, hcount raw, Nat.zero_add,
          Nat.add_zero]
        exact (enforce_retryCount env cfg request.normalise raw _ t₁).symm

variable {env cfg input}

/-! ### What a response says -/

theorem firstText_eq_ok {sent : List String} {raw : String} :
    firstText env input sent = .ok raw ↔
      ∃ reply, env.caller (sent ++ [buildPrompt input]) = .ok reply ∧ trimSpace reply ≠ "" ∧
        trimSpace reply = raw := by
  unfold firstText first
  cases hreply : env.caller (sent ++ [buildPrompt input]) with
  | error err => simp [hreply]
  | ok reply =>
    by_cases hblank : trimSpace reply = ""
    · simp [hreply, hblank]
    · simp [hreply, hblank]

/-- The first attempt fails if the call does or the reply is blank. -/
theorem firstText_eq_error {sent : List String} :
    (∃ err, firstText env input sent = .error err) ↔
      (∃ err, env.caller (sent ++ [buildPrompt input]) = .error err) ∨
        ∃ reply, env.caller (sent ++ [buildPrompt input]) = .ok reply ∧ trimSpace reply = "" := by
  unfold firstText first
  cases hreply : env.caller (sent ++ [buildPrompt input]) with
  | error err => simp [hreply]
  | ok reply =>
    by_cases hblank : trimSpace reply = ""
    · simp [hreply, hblank]
    · simp [hreply, hblank]

/-- An accepted text is not blank. -/
theorem ne_empty_of_accepted {loop : Loop} {locale text : String} {reply : Translation}
    (h : accepted env loop locale reply = some text) : text ≠ "" := by
  obtain ⟨original, err⟩ := reply
  cases err with
  | some err => cases h
  | none =>
    obtain ⟨⟨hne, _⟩, htext⟩ := (Option.ite_none_right_eq_some).mp h
    rwa [← Option.some.inj htext]

variable (env cfg input)

/-- The exits of the pipeline after a first reply `raw`: accepted at once, accepted after the second
attempt, translated, or all strategies failed. -/
inductive Exit (sent : List String) (raw : String) : AIResponse → Prop
  | accepted
      (hcheck : cfg.strictLanguageCheck = false ∨
        validateText env.unicode (env.ranges .first) raw input.locale = true) :
      Exit sent raw (firstResponse input raw)
  | retried {text : String} (hstrict : cfg.strictLanguageCheck = true)
      (hfirst : validateText env.unicode (env.ranges .first) raw input.locale = false)
      (htext : retryText env cfg input sent = some text) :
      Exit sent raw { retried cfg (firstResponse input raw) with text, raw := text, valid := true }
  | translated {text : String} (hretry : retryText env cfg input sent = none)
      (htext : translatedText env cfg input raw (sentAfterRetry cfg input sent) = some text) :
      Exit sent raw { retried cfg (firstResponse input raw) with text, valid := true }
  | exhausted
      (hfirst : validateText env.unicode (env.ranges .first) raw input.locale = false)
      (hretry : retryText env cfg input sent = none)
      (htranslated : translatedText env cfg input raw (sentAfterRetry cfg input sent) = none) :
      Exit sent raw { retried cfg (firstResponse input raw) with valid := false }

theorem exit_responseTo (sent : List String) (raw : String) :
    Exit env cfg input sent raw (responseTo env cfg input sent raw) := by
  unfold responseTo enforced
  by_cases hcheck : (!cfg.strictLanguageCheck ||
      validateText env.unicode (env.ranges .first) raw input.locale) = true
  · rw [if_pos hcheck]
    exact .accepted (by simpa using hcheck)
  rw [if_neg hcheck]
  obtain ⟨hstrict, hfirst⟩ : cfg.strictLanguageCheck = true ∧
      validateText env.unicode (env.ranges .first) raw input.locale = false := by
    simpa using hcheck
  cases hretry : retryText env cfg input sent with
  | some text => exact .retried hstrict hfirst hretry
  | none =>
    cases htranslated : translatedText env cfg input raw (sentAfterRetry cfg input sent) with
    | some text => exact .translated hretry htranslated
    | none => exact .exhausted hfirst hretry htranslated

variable {env cfg input} {sent : List String} {raw : String} {resp : AIResponse}

/-- Counting the second attempt changes nothing else. -/
theorem retried_eq (resp : AIResponse) :
    (retried cfg resp).text = resp.text ∧ (retried cfg resp).raw = resp.raw := by
  unfold retried
  split <;> exact ⟨rfl, rfl⟩

namespace Exit

/-- Under the strict check the flag says whether the text is in the language of the locale. -/
theorem valid_iff (h : Exit env cfg input sent raw resp) (hstrict : cfg.strictLanguageCheck = true)
    (ranges : Any.Ranges) :
    resp.valid = true ↔ validateText env.unicode ranges resp.text input.locale = true := by
  cases h with
  | accepted hcheck =>
    rw [validateText_ranges _ ranges (env.ranges .first)]
    exact iff_of_true rfl (hcheck.resolve_left (by simp [hstrict]))
  | retried _ _ htext => exact iff_of_true rfl (validateText_of_retryText htext ranges)
  | translated _ htext => exact iff_of_true rfl (validateText_of_translatedText htext ranges)
  | exhausted hfirst _ _ =>
    refine iff_of_false (nomatch ·) ?_
    rw [(retried_eq _).1, validateText_ranges _ ranges (env.ranges .first)]
    exact Bool.eq_false_iff.mp hfirst

/-- The flag is set if and only if some strategy has found a text. -/
theorem valid_iff_found (h : Exit env cfg input sent raw resp)
    (hstrict : cfg.strictLanguageCheck = true) :
    resp.valid = true ↔
      validateText env.unicode (env.ranges .first) raw input.locale = true ∨
        (retryText env cfg input sent).isSome ∨
        (translatedText env cfg input raw (sentAfterRetry cfg input sent)).isSome := by
  cases h with
  | accepted hcheck => exact iff_of_true rfl (.inl (hcheck.resolve_left (by simp [hstrict])))
  | retried _ _ htext => exact iff_of_true rfl (.inr (.inl (by rw [htext]; rfl)))
  | translated _ htext => exact iff_of_true rfl (.inr (.inr (by rw [htext]; rfl)))
  | exhausted hfirst hretry htranslated =>
    exact iff_of_false (nomatch ·) (by simp [hfirst, hretry, htranslated])

theorem text_ne_empty (h : Exit env cfg input sent raw resp) (hraw : raw ≠ "") : resp.text ≠ "" := by
  cases h with
  | accepted _ => exact hraw
  | retried _ _ htext => exact ne_empty_of_accepted (Option.ite_none_right_eq_some.mp htext).2
  | translated _ htext => exact ne_empty_of_accepted (Option.ite_none_right_eq_some.mp htext).2
  | exhausted _ _ _ =>
    rw [(retried_eq _).1]
    exact hraw

/-- The first reply is kept on every exit but the second. -/
theorem raw_eq_iff (h : Exit env cfg input sent raw resp) :
    resp.raw = raw ↔
      ¬ (cfg.strictLanguageCheck = true ∧
          validateText env.unicode (env.ranges .first) raw input.locale = false ∧
          (retryText env cfg input sent).isSome) := by
  cases h with
  | accepted hcheck =>
    refine iff_of_true rfl ?_
    rintro ⟨hstrict, hfirst, _⟩
    rcases hcheck with h | h
    · simp [hstrict] at h
    · simp [hfirst] at h
  | @retried text hstrict hfirst htext =>
    refine iff_of_false ?_ fun hnot => hnot ⟨hstrict, hfirst, by rw [htext]; rfl⟩
    -- The second reply has passed the check that the first one has failed.
    intro (heq : text = raw)
    rw [← heq, validateText_of_retryText htext] at hfirst
    cases hfirst
  | translated hretry _ => exact iff_of_true (retried_eq _).2 (by simp [hretry])
  | exhausted _ hretry _ => exact iff_of_true (retried_eq _).2 (by simp [hretry])

end Exit

/-- The text of a response is in the language of the locale if and only if some strategy has found one
that is. -/
theorem validateText_responseTo (hstrict : cfg.strictLanguageCheck = true) (ranges : Any.Ranges)
    (sent : List String) (raw : String) :
    validateText env.unicode ranges (responseTo env cfg input sent raw).text input.locale = true ↔
      validateText env.unicode (env.ranges .first) raw input.locale = true ∨
        (retryText env cfg input sent).isSome ∨
        (translatedText env cfg input raw (sentAfterRetry cfg input sent)).isSome := by
  have hexit := exit_responseTo env cfg input sent raw
  rw [← hexit.valid_iff hstrict ranges]
  exact hexit.valid_iff_found hstrict

/-- A response comes from one of the exits, with the first reply that the model gave. -/
theorem exit_of_generate {request : PromptInput} {t : Transcript}
    (h : ((generate env cfg request).run t).run.1 = .ok resp) :
    ∃ reply, env.caller (t.sent ++ [buildPrompt request.normalise]) = .ok reply ∧
      trimSpace reply ≠ "" ∧
      Exit env cfg request.normalise (t.sent ++ [buildPrompt request.normalise]) (trimSpace reply)
        resp := by
  rw [generate_run] at h
  cases hfirst : firstText env request.normalise t.sent with
  | error err =>
    rw [hfirst] at h
    cases h
  | ok raw =>
    rw [hfirst] at h
    cases h
    obtain ⟨reply, hreply, hne, rfl⟩ := firstText_eq_ok.mp hfirst
    exact ⟨reply, hreply, hne, exit_responseTo env cfg request.normalise _ _⟩

/-- Under the strict check the flag of a response tells the truth about its text, which is not empty;
the count is that of the reinforced prompts; and a request fails if and only if its first call fails or
the reply to it is blank. -/
theorem generate_truthful (env : Env) (cfg : AIConfig) (request : PromptInput)
    (hstrict : cfg.strictLanguageCheck = true) (t : Transcript) :
    (∀ resp, ((generate env cfg request).run t).run.1 = .ok resp →
        (∀ ranges, resp.valid = true ↔
          validateText env.unicode ranges resp.text request.normalise.locale = true) ∧
        resp.text ≠ "" ∧
        ∃ new, ((generate env cfg request).run t).run.2.sent = t.sent ++ new ∧
          resp.retryCount = new.count (buildRetryPrompt request.normalise)) ∧
      ((∃ err, ((generate env cfg request).run t).run.1 = .error err) ↔
        (∃ err, env.caller (t.sent ++ [buildPrompt request.normalise]) = .error err) ∨
          ∃ reply, env.caller (t.sent ++ [buildPrompt request.normalise]) = .ok reply ∧
            trimSpace reply = "") := by
  constructor
  · intro resp hresp
    obtain ⟨reply, -, hne, hexit⟩ := exit_of_generate hresp
    obtain ⟨new, hsent, hcount⟩ := generate_sends env cfg request t
    exact ⟨hexit.valid_iff hstrict, hexit.text_ne_empty hne, new, hsent, (hcount resp hresp).symm⟩
  · rw [← firstText_eq_error, generate_run]
    cases firstText env request.normalise t.sent with
    | error err => exact iff_of_true ⟨err, rfl⟩ ⟨err, rfl⟩
    | ok raw => exact iff_of_false (fun ⟨_, h⟩ => nomatch h) (fun ⟨_, h⟩ => nomatch h)

/-- A text in English. -/
def enText : String := "The plan is on track."

/-- A text in French. -/
def frText : String := "Le plan est sur la bonne voie."

/-- A request for French. -/
def frenchInput : PromptInput where
  prompt := "Analyse."
  locale := "fr"
  metadata := []

/-- A model that always answers in English: the response is marked as invalid. -/
theorem generate_truthful_english :
    defaultAIConfig.strictLanguageCheck = true ∧
      ((generate (sequenceEnv [enText, enText, enText]) defaultAIConfig frenchInput).run
          .empty).run.1.toOption.map (fun resp => (resp.text, resp.valid, resp.retryCount)) =
        some (enText, false, 1) ∧
      ∀ resp, ((generate (sequenceEnv [enText, enText, enText]) defaultAIConfig frenchInput).run
          .empty).run.1 = .ok resp → resp.text ≠ "" := by
  refine ⟨rfl, by decide +kernel, ?_⟩
  intro resp hresp
  exact ((generate_truthful (sequenceEnv [enText, enText, enText]) defaultAIConfig frenchInput rfl
    .empty).1 resp hresp).2.1

/-- The first reply is kept in the response unless the second attempt is accepted. -/
theorem generate_raw_iff (env : Env) (cfg : AIConfig) (request : PromptInput) (t : Transcript) :
    (∀ resp, ((generate env cfg request).run t).run.1 = .ok resp →
        ∃ reply, env.caller (t.sent ++ [buildPrompt request.normalise]) = .ok reply ∧
          resp.raw = trimSpace reply) ↔
      ¬ (cfg.strictLanguageCheck = true ∧
          ∃ reply, env.caller (t.sent ++ [buildPrompt request.normalise]) = .ok reply ∧
            trimSpace reply ≠ "" ∧
            validateText env.unicode (env.ranges .first) (trimSpace reply) request.normalise.locale =
              false ∧
            (retryText env cfg request.normalise
              (t.sent ++ [buildPrompt request.normalise])).isSome) := by
  constructor
  · rintro h ⟨hstrict, reply, hreply, hne, hfirst, hretry⟩
    have hok : ((generate env cfg request).run t).run.1 =
        .ok (responseTo env cfg request.normalise (t.sent ++ [buildPrompt request.normalise])
          (trimSpace reply)) := by
      rw [generate_run, firstText_eq_ok.mpr ⟨reply, hreply, hne, rfl⟩]
      rfl
    obtain ⟨reply', hreply', hraw⟩ := h _ hok
    obtain rfl := Except.ok.inj (hreply.symm.trans hreply')
    exact (exit_responseTo env cfg request.normalise _ _).raw_eq_iff.mp hraw ⟨hstrict, hfirst, hretry⟩
  · intro hnot resp hresp
    obtain ⟨reply, hreply, hne, hexit⟩ := exit_of_generate hresp
    refine ⟨reply, hreply, hexit.raw_eq_iff.mpr ?_⟩
    rintro ⟨hstrict, hfirst, hretry⟩
    exact hnot ⟨hstrict, reply, hreply, hne, hfirst, hretry⟩

/-- The first reply is in English and the second in French: the response has lost the first. -/
theorem generate_overwrites_raw :
    ((generate (sequenceEnv [enText, frText]) defaultAIConfig frenchInput).run
        .empty).run.1.toOption.map AIResponse.raw = some frText ∧
      ((sequenceEnv [enText, frText]).caller [buildPrompt frenchInput]).toOption = some enText ∧
      frText ≠ trimSpace enText := by
  refine ⟨?_, ?_, ?_⟩
  · decide +kernel
  · decide +kernel
  · decide +kernel

end Strategies

end AiLang
