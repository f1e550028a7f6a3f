import BackendKit.GoStd.Strings

/-!
# Byte strings and network addresses

A Go string is a sequence of bytes, not of characters. Where a program takes strings from the
outside and looks at single bytes of them, they are modelled as `Bytes`.

Of `net` there are `SplitHostPort`, and the operations on `IP` that only look at the bytes of an address.
-/

namespace GoStd

/-- A Go string. -/
abbrev Bytes := List UInt8

/-- The bytes of a string of ASCII characters. -/
def ascii (s : String) : Bytes := s.toList.map fun c => UInt8.ofNat c.toNat

/-- Joined strings, with the separator in front of each but the first. -/
theorem intercalate_singleton_cons {α : Type} (sep : α) (s : List α) (rest : List (List α)) :
    [sep].intercalate (s :: rest) = s ++ rest.flatMap (sep :: ·) := by
  induction rest generalizing s with
  | nil => simp [List.intercalate]
  | cons t rest ih => simp [List.intercalate_cons_cons, ih]

/-- The two hexadecimal digits of a byte. -/
def hexByte (b : UInt8) : Bytes := [(hexChar (b.toNat / 16)).toUInt8, (hexChar (b.toNat % 16)).toUInt8]

/-- What holds of the sixteen digits holds of those of a byte. -/
theorem forall_mem_hexByte {p : UInt8 → Prop} (h : ∀ n : Fin 16, p (hexChar n).toUInt8) {b c : UInt8}
    (hc : c ∈ hexByte b) : p c := by
  have hb := b.toNat_lt
  simp only [hexByte, List.mem_cons, List.not_mem_nil, or_false] at hc
  rcases hc with rfl | rfl
  · exact h ⟨b.toNat / 16, by omega⟩
  · exact h ⟨b.toNat % 16, by omega⟩

namespace Net

/-- The position of the last `b` (`bytealg.LastIndexByteString`). -/
def lastIndex? (b : UInt8) (s : Bytes) : Option ℕ :=
  (s.reverse.idxOf? b).map (s.length - 1 - ·)

/-- `net.SplitHostPort`: the host and the port; `none` for an error. -/
def splitHostPort (hostport : Bytes) : Option (Bytes × Bytes) :=
  let colon : UInt8 := 0x3a
  let lbracket : UInt8 := 0x5b
  let rbracket : UInt8 := 0x5d
  match lastIndex? colon hostport with
  | none => none -- missing port
  | some i =>
    if hostport.head? = some lbracket then
      match hostport.idxOf? rbracket with
      | none => none
      | some stop =>
        -- the first `]` is expected just before the last `:`
        if stop + 1 ≠ i then none
        else if hostport.tail.contains lbracket || (hostport.drop (stop + 1)).contains rbracket then
          none
        else some ((hostport.take stop).drop 1, hostport.drop (i + 1))
    else if (hostport.take i).contains colon then none -- too many colons
    else if hostport.contains lbracket || hostport.contains rbracket then none
    else some (hostport.take i, hostport.drop (i + 1))

/-- `IP.To4`: the four bytes of an IPv4 address, also of one that is mapped into IPv6. -/
def to4 (ip : Bytes) : Option Bytes :=
  if ip.length = 4 then some ip
  else if ip.length = 16 ∧ ip.take 12 = List.replicate 10 0 ++ [0xff, 0xff] then some (ip.drop 12)
  else none

/-- `net.CIDRMask(64, 128)`. -/
def mask64 : Bytes := List.replicate 8 0xff ++ List.replicate 8 0

/-- `IP.Mask` with a mask of the same length. -/
def mask (ip m : Bytes) : Bytes := List.zipWith (· &&& ·) ip m

end Net

end GoStd
