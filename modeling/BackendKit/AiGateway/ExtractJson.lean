import BackendKit.AiLang.Fragment

/-!
# JSON in a response

`ExtractJSON` (`aigateway/json.go`) is documented to return the first complete JSON object of a
response. It returns what lies between the first `\x7b` and the last `\x7d`, which is that object if and
only if no `\x7d` follows it (`extractJSON_first_iff`). It fails only if there is no object at all.
-/

open GoStd AiLang

namespace AiGateway

/-- `ExtractJSON`. -/
def extractJSON (response : String) : Except AiError String :=
  match between '\x7b' '\x7d' response with
  | none => .error (.leaf "aigateway: no valid JSON object found in AI response")
  | some raw => .ok raw

theorem extractJSON_eq_ok {response raw : String} :
    extractJSON response = .ok raw ↔ between '\x7b' '\x7d' response = some raw := by
  unfold extractJSON
  cases between '\x7b' '\x7d' response with
  | none => exact iff_of_false (nomatch ·) (nomatch ·)
  | some raw' =>
    constructor
    · intro h
      rw [Except.ok.inj h]
    · intro h
      rw [Option.some.inj h]

/-- There is something between braces in a response that contains an object. -/
theorem extractJSON_ne_error {front object back : String} (hobject : IsObjectText object)
    (err : AiError) : extractJSON (front ++ object ++ back) ≠ .error err := by
  obtain ⟨-, body, hbody⟩ := hobject
  have hlist : (front ++ object ++ back).toList =
      front.toList ++ '\x7b' :: (body ++ '\x7d' :: back.toList) := by
    simp [hbody]
  obtain ⟨raw, hraw⟩ := exists_between hlist
  rw [extractJSON_eq_ok.mpr hraw]
  exact (nomatch ·)

/-- The object is what is found if and only if no brace follows it. -/
theorem extractJSON_eq_ok_self {front object back : String} (hobject : IsObjectText object)
    (hfront : '\x7b' ∉ front.toList) :
    extractJSON (front ++ object ++ back) = .ok object ↔ '\x7d' ∉ back.toList := by
  obtain ⟨-, body, hbody⟩ := hobject
  rw [extractJSON_eq_ok, between_eq_some]
  constructor
  · rintro ⟨front', body', back', hlist, hfront', hback', hbody'⟩
    have hcut : front.toList ++ (object.toList ++ back.toList) =
        front' ++ '\x7b' :: (body' ++ '\x7d' :: back') := by
      rw [← hlist]
      simp
    obtain ⟨gap, rfl, hrest⟩ := exists_append_of_not_mem hcut hfront
    -- Both cuts are at the first brace.
    have hgap : gap = [] := by
      cases gap with
      | nil => rfl
      | cons d gap =>
        rw [hbody] at hrest
        obtain ⟨rfl, -⟩ := List.cons.inj hrest
        exact absurd (List.mem_append_right _ (List.mem_cons_self ..)) hfront'
    have hback : object.toList ++ back.toList = object.toList ++ back' := by
      rw [hrest, hgap, hbody']
      simp
    rw [List.append_cancel_left hback]
    exact hback'
  · intro hback
    exact ⟨front.toList, body, back.toList, by simp [hbody], hfront, hback, hbody⟩

/-- The first complete object is returned if and only if no brace follows it; and there is an error only
for a response that contains no complete object. -/
theorem extractJSON_first_iff (front object back : String) (hobject : IsObjectText object)
    (hfront : '\x7b' ∉ front.toList) :
    (extractJSON (front ++ object ++ back) = .ok object ∧
        ∀ response err, extractJSON response = .error err →
          ¬ ∃ front' object' back', response = front' ++ object' ++ back' ∧ IsObjectText object') ↔
      '\x7d' ∉ back.toList := by
  rw [extractJSON_eq_ok_self hobject hfront]
  refine and_iff_left ?_
  rintro response err herr ⟨front', object', back', rfl, hobject'⟩
  exact extractJSON_ne_error hobject' err herr

theorem isObjectText_sample : IsObjectText "\x7b\"score\":1\x7d" :=
  ⟨by decide +kernel, "\"score\":1".toList, rfl⟩

/-- An object in prose without braces is returned. -/
theorem extractJSON_prose :
    extractJSON ("Here: " ++ "\x7b\"score\":1\x7d" ++ " Hope this helps.") =
      .ok "\x7b\"score\":1\x7d" :=
  ((extractJSON_first_iff "Here: " "\x7b\"score\":1\x7d" " Hope this helps." isObjectText_sample
    (by decide)).mpr (by decide)).1

/-- Two objects: what is returned reaches from the first to the last brace, and is not JSON. -/
theorem extractJSON_two_objects :
    IsObjectText "\x7b\"score\":1\x7d" ∧ '\x7b' ∉ "Here: ".toList ∧
      (extractJSON ("Here: " ++ "\x7b\"score\":1\x7d" ++ " or \x7b\x7d")).toOption =
        some "\x7b\"score\":1\x7d or \x7b\x7d" ∧
      JsonText.valid "\x7b\"score\":1\x7d or \x7b\x7d" = false := by
  refine ⟨isObjectText_sample, by decide, ?_, ?_⟩
  · decide +kernel
  · decide +kernel

end AiGateway
