import BackendKit.AiLang.Validator
import BackendKit.GoStd.Errors
import BackendKit.ToMathlib.StateLog

/-!
# Prompts and the translator

The prompts of `ailang/prompt_builder.go` and the `Translator` of `ailang/translator.go`, which asks
the language model to translate a text, or the strings of a JSON document.

The model is a function of all prompts it has been sent so far, the current one included, so that it
may answer a prompt in any way, and differently each time. A computation that asks it carries the list
of these prompts.
-/

open GoStd

namespace AiLang

/-- An error, each node with its message. -/
abbrev AiError := GoStd.Error String

/-- `fmt.Errorf(label + ": %w", err)`. -/
def wrapError (label : String) : AiError → AiError
  | .node message unwrap => .wrap (label ++ ": " ++ message) (.node message unwrap)

/-- What the caller supplies. -/
structure PromptInput where
  prompt : String
  /-- The required language, `fr` if empty. -/
  locale : String
  /-- Forwarded to the reporter; a nil map has no entries. -/
  metadata : List (String × Any)

/-! ### Prompts -/

/-- The name of a language in a prompt. -/
def labelFor (locale : String) : String :=
  if locale = "fr" then "French (français)"
  else if locale = "en" then "English"
  else locale

/-- The prompt with the directive to answer in the language of the locale. -/
def buildPrompt (input : PromptInput) : String :=
  let lang := labelFor input.locale
  "\n".intercalate
    ["OUTPUT LANGUAGE RULE (mandatory):",
      s!"- The response MUST be written entirely in {lang}.",
      s!"- Every word, sentence, and punctuation mark must be in {lang}.",
      "- Do NOT mix languages under any circumstances.",
      s!"- If you cannot comply with this rule, your answer is invalid and must be rewritten from scratch in {lang}.",
      "",
      input.prompt]

/-- The reinforced prompt of the second attempt. -/
def buildRetryPrompt (input : PromptInput) : String :=
  let lang := labelFor input.locale
  "\n".intercalate
    ["⚠️  CRITICAL LANGUAGE VIOLATION — REWRITE REQUIRED",
      "",
      s!"Your previous response was REJECTED because it was not written in {lang}.",
      "",
      "MANDATORY CORRECTION RULES:",
      s!"1. Rewrite the entire answer in {lang}.",
      s!"2. Every single word must be in {lang} — no exceptions, no mixing.",
      "3. Do NOT include any words from any other language.",
      s!"4. If you include a single non-{lang} word, the answer will be rejected again.",
      "",
      s!"Original request (answer it entirely in {lang}):",
      input.prompt]

/-- The prompt that asks for a translation. -/
def buildTranslationPrompt (text locale : String) : String :=
  let lang := labelFor locale
  "\n".intercalate
    [s!"Translate the following text into {lang}.",
      "",
      "TRANSLATION RULES:",
      "- Output ONLY the translated content. No explanations, no preamble.",
      "- If the input is a JSON object or array:",
      "    • Translate ONLY the string values.",
      "    • Leave all keys, numbers, booleans, and null values unchanged.",
      "    • The output MUST be valid JSON with the same structure.",
      "- Preserve formatting (newlines, bullet points, etc.) where present.",
      "- Preserve proper nouns and technical terms that should not be translated.",
      "",
      "Text to translate:",
      text]

/-! ### Asking the model -/

/-- The loops over the maps of a document, one for each place in the code. -/
inductive Loop where
  /-- `ValidateText` of the first reply, of the second one and of the translation. -/
  | first | retry | translated
  /-- `walkTranslate`. -/
  | walk

/-- What the pipeline runs with. -/
structure Env where
  unicode : Unicode
  /-- `RawCaller`: the reply to the last of the prompts sent so far. -/
  caller : List String → Except AiError String
  /-- The orders in which the loops visit maps. -/
  ranges : Loop → Any.Ranges
  /-- The message of `json.Unmarshal` for a document that cannot be decoded. -/
  unmarshalError : String → String

/-- A computation that sends prompts; its state is the list of those sent so far. -/
abbrev Ask (α : Type) := StateM (List String) α

/-- `RawCaller.Call`. -/
def Env.call (env : Env) (prompt : String) : Ask (Except AiError String) := do
  modify (· ++ [prompt])
  return env.caller (← get)

@[simp] theorem run_call (env : Env) (prompt : String) (sent : List String) :
    (env.call prompt).run sent = pure (env.caller (sent ++ [prompt]), sent ++ [prompt]) := rfl

/-- A model that gives one reply after the other. -/
def sequenceEnv (replies : List String) : Env where
  unicode := .ascii
  caller sent := .ok (replies.getD (sent.length - 1) "")
  ranges _ := .inOrder
  unmarshalError _ := "json: cannot unmarshal number into Go value of type float64"

/-! ### Translator -/

/-- A text to go on with and, if it is not a translation, the reason. -/
abbrev Translation := String × Option AiError

/-- The reply without white space around it, or the original with the error under a label. -/
def translation (label original : String) : Except AiError String → Translation
  | .error err => (original, some (wrapError label err))
  | .ok result =>
    if trimSpace result = "" then (original, some (.leaf (label ++ ": empty response from LLM")))
    else (trimSpace result, none)

/-- One prompt for a plain text. -/
def translatePlain (env : Env) (text locale : String) : Ask Translation := do
  return translation "ailang: translator" text (← env.call (buildTranslationPrompt text locale))

/-- The text from the first `opening` to the last `closing` after it. -/
def between (opening closing : Char) (s : String) : Option String :=
  match s.toList.dropWhile (· ≠ opening) with
  | [] => none
  | c :: rest =>
    match rest.reverse.dropWhile (· ≠ closing) with
    | [] => none
    | reversed => some (String.ofList (c :: reversed.reverse))

/-- The JSON object, or else array, within a text, or the text if there is none. -/
def extractJSONFragment (s : String) : String :=
  (((between '\x7b' '\x7d' s).filter JsonText.valid).or
    ((between '[' ']' s).filter JsonText.valid)).getD s

mutual

/-- Translate each string of a value. A string whose translation fails stays as it is, so the error
that the code passes up is always nil. -/
def walkTranslate (env : Env) (locale : String) : Any → Ask Any
  | .string s => do
    match ← translatePlain env s locale with
    | (_, some _) => return .string s
    | (translated, none) => return .string translated
  | .slice elements => do return .slice (← walkElements env locale elements)
  | .map entries => do return .map (← walkEntries env locale entries)
  | v => return v

def walkElements (env : Env) (locale : String) : List Any → Ask (List Any)
  | [] => return []
  | v :: vs => do
    let v ← walkTranslate env locale v
    let vs ← walkElements env locale vs
    return v :: vs

def walkEntries (env : Env) (locale : String) : List (String × Any) → Ask (List (String × Any))
  | [] => return []
  | (key, v) :: entries => do
    let v ← walkTranslate env locale v
    let entries ← walkEntries env locale entries
    return (key, v) :: entries

end

/-- Translate the strings of a document one by one. -/
def translateJSONValues (env : Env) (raw locale : String) : Ask Translation := do
  match (JsonText.parse raw).bind (Any.ofJson false) with
  | none =>
    return (raw, some (wrapError "ailang: translator: cannot parse JSON"
      (.leaf (env.unmarshalError raw))))
  | some v =>
    let translated ← walkTranslate env locale (v.shuffle (env.ranges .walk) [])
    return (JsonText.render translated.toJson, none)

/-- One prompt for a whole document, and one for each of its strings if the reply holds no JSON. -/
def translateJSON (env : Env) (raw locale : String) : Ask Translation := do
  match translation "ailang: translator (json)" raw
      (← env.call (buildTranslationPrompt raw locale)) with
  | (text, some err) => return (text, some err)
  | (result, none) =>
    if JsonText.valid result then return (result, none)
    else if JsonText.valid (extractJSONFragment result) then
      return (extractJSONFragment result, none)
    else translateJSONValues env raw locale

/-- `Translator.Translate`. -/
def translate (env : Env) (text locale : String) : Ask Translation := do
  let text := trimSpace text
  if text = "" then return ("", none)
  else if looksLikeJSON text then translateJSON env text locale
  else translatePlain env text locale

/-! ### What the translator sends -/

/-- All prompts that a computation sends satisfy `p`. -/
abbrev SendsOnly {α : Type} (p : String → Prop) (query : Ask α) : Prop :=
  StateLog.Appends id p query

theorem call_sendsOnly (env : Env) {p : String → Prop} {prompt : String} (h : p prompt) :
    SendsOnly p (env.call prompt) := by
  intro sent
  refine ⟨[prompt], rfl, ?_⟩
  intro sent' hmem
  rw [List.mem_singleton.mp hmem]
  exact h

/-- A prompt that asks for a translation into the language of the locale. -/
def IsTranslationPrompt (locale prompt : String) : Prop :=
  ∃ text, prompt = buildTranslationPrompt text locale

section

variable (env : Env) (locale : String)

theorem translatePlain_sendsOnly (text : String) :
    SendsOnly (IsTranslationPrompt locale) (translatePlain env text locale) :=
  .bind (call_sendsOnly env ⟨text, rfl⟩) fun _ => .pure _

mutual

theorem walkTranslate_sendsOnly (v : Any) :
    SendsOnly (IsTranslationPrompt locale) (walkTranslate env locale v) := by
  cases v with
  | string s =>
    rw [walkTranslate]
    refine .bind (translatePlain_sendsOnly env locale s) ?_
    rintro ⟨translated, err⟩
    cases err with
    | none => exact .pure _
    | some err => exact .pure _
  | slice elements =>
    rw [walkTranslate]
    exact .bind (walkElements_sendsOnly elements) fun _ => .pure _
  | map entries =>
    rw [walkTranslate]
    exact .bind (walkEntries_sendsOnly entries) fun _ => .pure _
  | _ => exact .pure _

theorem walkElements_sendsOnly (vs : List Any) :
    SendsOnly (IsTranslationPrompt locale) (walkElements env locale vs) := by
  cases vs with
  | nil => exact .pure _
  | cons v vs =>
    rw [walkElements]
    exact .bind (walkTranslate_sendsOnly v) fun _ => .bind (walkElements_sendsOnly vs) fun _ => .pure _

theorem walkEntries_sendsOnly (entries : List (String × Any)) :
    SendsOnly (IsTranslationPrompt locale) (walkEntries env locale entries) := by
  cases entries with
  | nil => exact .pure _
  | cons e entries =>
    rw [walkEntries]
    exact .bind (walkTranslate_sendsOnly e.2) fun _ =>
      .bind (walkEntries_sendsOnly entries) fun _ => .pure _

end

theorem translateJSONValues_sendsOnly (raw : String) :
    SendsOnly (IsTranslationPrompt locale) (translateJSONValues env raw locale) := by
  unfold translateJSONValues
  split
  · exact .pure _
  · exact .bind (walkTranslate_sendsOnly env locale _) fun _ => .pure _

theorem translateJSON_sendsOnly (raw : String) :
    SendsOnly (IsTranslationPrompt locale) (translateJSON env raw locale) := by
  unfold translateJSON
  refine .bind (call_sendsOnly env ⟨raw, rfl⟩) fun reply => ?_
  split
  · exact .pure _
  split
  · exact .pure _
  split
  · exact .pure _
  · exact translateJSONValues_sendsOnly env locale raw

/-- The translator sends translation prompts and nothing else. -/
theorem translate_sendsOnly (text : String) :
    SendsOnly (IsTranslationPrompt locale) (translate env text locale) := by
  unfold translate
  dsimp only
  split
  · exact .pure _
  split
  · exact translateJSON_sendsOnly env locale _
  · exact translatePlain_sendsOnly env locale _

end

end AiLang
