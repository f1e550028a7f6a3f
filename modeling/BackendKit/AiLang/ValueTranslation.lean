import BackendKit.AiLang.Translator
import BackendKit.GoStd.AnyTree

/-!
# Translation value by value

`translateJSONValues` decodes a document, translates each string of the tree and writes the tree again.
All that should change are the strings: `walkTranslate` leaves "numbers, booleans, nil" unchanged by its
comment, and the prompt asks the model to leave them unchanged too.

The tree keeps its kinds of nodes, names, lengths, booleans and nulls whatever the model replies
(`headAt_translated`). Numbers go through `float64` in between. What is written for one is the shortest
decimal that is read as the same `float64`, which is another number for an integer of 17 digits or more,
in general. `translateJSONValues_keeps_iff` says for which documents nothing but strings changes.
-/

open GoStd

namespace AiLang

/-! ### The walk -/

section Walk

variable (env : Env) (locale : String)

/-- The value that a walk returns, after some prompts have been sent. -/
def walked (v : Any) (sent : List String) : Any := ((walkTranslate env locale v).run sent).run.1

def walkedElements (vs : List Any) (sent : List String) : List Any :=
  ((walkElements env locale vs).run sent).run.1

def walkedEntries (entries : List (String × Any)) (sent : List String) : List (String × Any) :=
  ((walkEntries env locale entries).run sent).run.1

theorem walkedElements_cons (v : Any) (vs : List Any) (sent : List String) :
    ∃ sent', walkedElements env locale (v :: vs) sent =
      walked env locale v sent :: walkedElements env locale vs sent' :=
  ⟨((walkTranslate env locale v).run sent).run.2, rfl⟩

theorem walkedEntries_cons (e : String × Any) (entries : List (String × Any)) (sent : List String) :
    ∃ sent', walkedEntries env locale (e :: entries) sent =
      (e.1, walked env locale e.2 sent) :: walkedEntries env locale entries sent' :=
  ⟨((walkTranslate env locale e.2).run sent).run.2, rfl⟩

theorem walked_string (s : String) (sent : List String) :
    ∃ s', walked env locale (.string s) sent = .string s' := by
  unfold walked
  rw [walkTranslate, StateT.run_bind]
  generalize (translatePlain env s locale).run sent = result
  obtain ⟨⟨text, err⟩, sent'⟩ := result
  cases err with
  | none => exact ⟨text, rfl⟩
  | some err => exact ⟨s, rfl⟩

theorem getElem?_walkedElements (vs : List Any) (i : ℕ) (sent : List String) :
    ∃ sent', (walkedElements env locale vs sent)[i]? = vs[i]?.map (walked env locale · sent') := by
  induction vs generalizing i sent with
  | nil => exact ⟨sent, rfl⟩
  | cons v vs ih =>
    obtain ⟨sent', hcons⟩ := walkedElements_cons env locale v vs sent
    rw [hcons]
    cases i with
    | zero => exact ⟨sent, rfl⟩
    | succ i => exact ih i sent'

theorem length_walkedElements (vs : List Any) (sent : List String) :
    (walkedElements env locale vs sent).length = vs.length := by
  induction vs generalizing sent with
  | nil => rfl
  | cons v vs ih =>
    obtain ⟨sent', hcons⟩ := walkedElements_cons env locale v vs sent
    rw [hcons, List.length_cons, ih, List.length_cons]

theorem keys_walkedEntries (entries : List (String × Any)) (sent : List String) :
    (walkedEntries env locale entries sent).map Prod.fst = entries.map Prod.fst := by
  induction entries generalizing sent with
  | nil => rfl
  | cons e entries ih =>
    obtain ⟨sent', hcons⟩ := walkedEntries_cons env locale e entries sent
    rw [hcons, List.map_cons, ih, List.map_cons]

theorem lookup_walkedEntries (entries : List (String × Any)) (k : String) (sent : List String) :
    ∃ sent', Any.lookup (walkedEntries env locale entries sent) k =
      (Any.lookup entries k).map (walked env locale · sent') := by
  induction entries generalizing sent with
  | nil => exact ⟨sent, rfl⟩
  | cons e entries ih =>
    obtain ⟨sent', hcons⟩ := walkedEntries_cons env locale e entries sent
    rw [hcons]
    by_cases hk : e.1 = k
    · exact ⟨sent, by simp [Any.lookup, hk]⟩
    · obtain ⟨sent'', hlookup⟩ := ih sent'
      refine ⟨sent'', ?_⟩
      simpa [Any.lookup, hk] using hlookup

/-- A walk changes strings only, whatever the model replies. -/
theorem headAt_walked (v : Any) (sent : List String) (path : List Any.Step) :
    Any.headAt path (walked env locale v sent) = Any.headAt path v := by
  refine Any.headAt_eq_of_simulates (R := fun v w => ∃ sent, w = walked env locale v sent) ?_ ?_
    ⟨sent, rfl⟩ path
  · rintro v w ⟨sent, rfl⟩
    cases v with
    | string s =>
      obtain ⟨s', hs'⟩ := walked_string env locale s sent
      rw [hs']
      rfl
    | slice vs => exact congrArg Any.Head.array (length_walkedElements env locale vs sent)
    | map entries =>
      exact congrArg (fun keys : List String => Any.Head.object keys)
        (keys_walkedEntries env locale entries sent)
    | _ => rfl
  · rintro v w ⟨sent, rfl⟩ step
    cases v with
    | string s =>
      obtain ⟨s', hs'⟩ := walked_string env locale s sent
      rw [hs']
      exact .none
    | slice vs =>
      cases step with
      | key k => exact .none
      | index i =>
        obtain ⟨sent', hget⟩ := getElem?_walkedElements env locale vs i sent
        show Option.Rel _ vs[i]? (walkedElements env locale vs sent)[i]?
        rw [hget]
        exact Any.rel_map_right fun _ _ => ⟨sent', rfl⟩
    | map entries =>
      cases step with
      | key k =>
        obtain ⟨sent', hlookup⟩ := lookup_walkedEntries env locale entries k sent
        show Option.Rel _ (Any.lookup entries k) (Any.lookup (walkedEntries env locale entries sent) k)
        rw [hlookup]
        exact Any.rel_map_right fun _ _ => ⟨sent', rfl⟩
      | index i => exact .none
    | _ => exact .none

end Walk

/-! ### From document to document -/

/-- The number that a literal stands for. -/
def exactValue (literal : String) : Option ℚ :=
  (Decimal.read literal).map fun d => if d.negative then -d.magnitude else d.magnitude

/-- What stands at a position of a decoded tree, with numbers by their exact values. -/
def nodeAt (path : List Any.Step) (v : Any) : Option (Any.Head (Option ℚ)) :=
  (Any.headAt path v).map (Any.Head.map exactValue)

/-- The number is the same after it was read as a `float64` and written again. -/
def Survives (literal : String) : Prop := exactValue (Any.rewritten literal) = exactValue literal

/-- What is written can be decoded, and has the heads of the decoded document with numbers as they are
written after they were read as `float64`. -/
theorem headAt_translated (env : Env) (locale : String) (sent : List String) {raw : String} {j : Json}
    {v w : Any} (hparse : JsonText.parse raw = some j) (hv : Any.ofJson true j = some v)
    (hw : Any.ofJson false j = some w) :
    ∃ out v', ((translateJSONValues env raw locale).run sent).run.1 = (out, none) ∧
      (JsonText.parse out).bind (Any.ofJson true) = some v' ∧
      ∀ path, Any.headAt path v' = (Any.headAt path v).map (Any.Head.map Any.rewritten) := by
  have hkeys := Any.distinctKeys_of_ofJson hw
  have hheads : ∀ path, Any.headAt path (walked env locale (w.shuffle (env.ranges .walk) []) sent) =
      Any.headAt path w := by
    intro path
    rw [headAt_walked, Any.headAt_shuffle _ hkeys]
  have hkeys' := hkeys.congr hheads
  have hwritten := (Any.written_of_ofJson hw).congr hheads
  refine ⟨_, _, ?_, Any.parse_render_toJson hkeys' hwritten, fun path => ?_⟩
  · unfold translateJSONValues
    rw [hparse, Option.bind_some, hw]
    rfl
  · obtain ⟨v₀, hv₀, rfl⟩ := Any.ofJson_floats hw
    obtain rfl := Option.some.inj (hv.symm.trans hv₀)
    rw [Any.headAt_reread hkeys', hheads, Any.headAt_floats]

/-- Nothing changes but strings: the output has a tree, and it has the same nodes everywhere. -/
def KeepsAllButStrings (v : Any) (out : String) : Prop :=
  ∃ v', (JsonText.parse out).bind (Any.ofJson true) = some v' ∧ ∀ path, nodeAt path v' = nodeAt path v

/-- The nodes are the same if and only if the numbers survive. -/
theorem nodeAt_rewritten_iff {v v' : Any}
    (hheads : ∀ path, Any.headAt path v' = (Any.headAt path v).map (Any.Head.map Any.rewritten)) :
    (∀ path, nodeAt path v' = nodeAt path v) ↔
      ∀ path literal, Any.headAt path v = some (.number literal) → Survives literal := by
  refine forall_congr' fun path => ?_
  unfold nodeAt
  rw [hheads]
  cases Any.headAt path v with
  | none =>
    refine iff_of_true rfl ?_
    rintro literal ⟨⟩
  | some node =>
    cases node with
    | number literal => simp [Any.Head.map, Survives]
    | _ =>
      refine iff_of_true rfl ?_
      rintro literal ⟨⟩

/-- If the translation of a document returns without an error, nothing has changed but strings, if and
only if each number of the document survives (or the document is refused, because a number does not fit
a `float64`). -/
theorem translateJSONValues_keeps_iff (env : Env) (raw locale : String) (sent : List String) (v : Any)
    (hdoc : (JsonText.parse raw).bind (Any.ofJson true) = some v) :
    (∀ out, ((translateJSONValues env raw locale).run sent).run.1 = (out, none) →
        KeepsAllButStrings v out) ↔
      (((JsonText.parse raw).bind (Any.ofJson false)).isSome = true →
        ∀ path literal, Any.headAt path v = some (.number literal) → Survives literal) := by
  obtain ⟨j, hparse, hv⟩ := Option.bind_eq_some_iff.mp hdoc
  rw [hparse, Option.bind_some]
  cases hw : Any.ofJson false j with
  | none =>
    -- A number is too large.
    refine iff_of_true (fun out hout => ?_) (fun h => nomatch h)
    have hrun : ((translateJSONValues env raw locale).run sent).run.1 =
        (raw, some (wrapError "ailang: translator: cannot parse JSON"
          (.leaf (env.unmarshalError raw)))) := by
      unfold translateJSONValues
      rw [hparse, Option.bind_some, hw]
      rfl
    cases hrun.symm.trans hout
  | some w =>
    obtain ⟨out, v', hrun, hv', hheads⟩ := headAt_translated env locale sent hparse hv hw
    rw [Option.isSome_some, ← nodeAt_rewritten_iff hheads]
    constructor
    · intro h _
      obtain ⟨v'', hv'', hsame⟩ := h out hrun
      obtain rfl := Option.some.inj (hv'.symm.trans hv'')
      exact hsame
    · intro hsame out' hout
      obtain rfl : out = out' := (Prod.mk.inj (hrun.symm.trans hout)).1
      exact ⟨v', hv', hsame rfl⟩

/-! ### Two documents -/

/-- A document with a number and a string. -/
def numbered (literal : String) : Json := .obj [("id", .num literal), ("title", .str "Plan")]

def numberedTree (literal : String) : Any := .map [("id", .number literal), ("title", .string "Plan")]

theorem ofJson_numbered {literal : String} (h : JsonText.IsLiteral literal) :
    (JsonText.parse (JsonText.render (numbered literal))).bind (Any.ofJson true) =
      some (numberedTree literal) := by
  rw [JsonText.parse_render (show JsonText.Proper (numbered literal) from ⟨h, trivial, trivial⟩)]
  rfl

theorem headAt_numberedTree {literal literal' : String} {path : List Any.Step}
    (h : Any.headAt path (numberedTree literal) = some (.number literal')) : literal' = literal := by
  match path with
  | [] => cases h
  | .index i :: path => cases h
  | .key k :: path =>
    obtain ⟨w, hw, hhead⟩ := Option.bind_eq_some_iff.mp h
    have hmem := Any.mem_of_lookup hw
    simp only [List.mem_cons, Prod.mk.injEq, List.not_mem_nil, or_false] at hmem
    rcases hmem with ⟨-, rfl⟩ | ⟨-, rfl⟩
    · cases path with
      | nil =>
        cases hhead
        rfl
      | cons step path => cases hhead
    · cases path with
      | nil => cases hhead
      | cons step path => cases hhead

/-- A small number survives, and the title is translated. -/
theorem translateJSONValues_keeps_small :
    ((translateJSONValues (sequenceEnv ["Projet"]) (JsonText.render (numbered "7")) "fr").run
      []).run.1.1 = "\x7b\"id\":7,\"title\":\"Projet\"\x7d" ∧
      KeepsAllButStrings (numberedTree "7") "\x7b\"id\":7,\"title\":\"Projet\"\x7d" := by
  have hliteral : JsonText.IsLiteral "7" := by
    unfold JsonText.IsLiteral
    decide
  have hsurvives : Survives "7" := by
    unfold Survives
    decide +kernel
  have htext : ((translateJSONValues (sequenceEnv ["Projet"]) (JsonText.render (numbered "7")) "fr").run
      []).run.1.1 = "\x7b\"id\":7,\"title\":\"Projet\"\x7d" := by
    decide +kernel
  have herr : ((translateJSONValues (sequenceEnv ["Projet"]) (JsonText.render (numbered "7")) "fr").run
      []).run.1.2 = none := by
    decide +kernel
  refine ⟨htext, ?_⟩
  refine (translateJSONValues_keeps_iff (sequenceEnv ["Projet"]) _ "fr" [] _
    (ofJson_numbered hliteral)).mpr ?_ _ (Prod.ext htext herr)
  intro _ path literal hhead
  rw [headAt_numberedTree hhead]
  exact hsurvives

/-- An integer that is not a `float64` comes back as another integer. -/
theorem translateJSONValues_changes_integer :
    (JsonText.parse (JsonText.render (numbered "9007199254740993"))).bind (Any.ofJson true) =
        some (numberedTree "9007199254740993") ∧
      ((translateJSONValues (sequenceEnv ["Projet"]) (JsonText.render (numbered "9007199254740993"))
        "fr").run []).run.1.1 = "\x7b\"id\":9007199254740992,\"title\":\"Projet\"\x7d" ∧
      ((translateJSONValues (sequenceEnv ["Projet"]) (JsonText.render (numbered "9007199254740993"))
        "fr").run []).run.1.2 = none ∧
      exactValue "9007199254740992" ≠ exactValue "9007199254740993" := by
  have hliteral : JsonText.IsLiteral "9007199254740993" := by
    unfold JsonText.IsLiteral
    decide
  refine ⟨ofJson_numbered hliteral, ?_, ?_, ?_⟩
  · decide +kernel
  · decide +kernel
  · decide +kernel

end AiLang
