import BackendKit.HttpWare.Tiers

/-!
# The bucket of a client address

`addressKey` (`httpware/keyed_ratelimit.go`) gives all addresses of one IPv6 subscriber one bucket,
and different clients different ones. `ClientAddr` says which client a text denotes; the results
compare that with the keys.

`net.ParseIP` and `IP.String` are assumed to behave as documented (`Lib.Documented`). `ParseIP`
rejects an address with a zone, so such a text is its own key, and one subscriber may have many of
them (`addressKey_eq_iff_sameClient_iff`).
-/

open GoStd

namespace HttpWare

/-- The sign between an address and its zone. -/
def zoneSign : UInt8 := 0x25

/-- The characters of the text form of an address. -/
def addressChars : Bytes := ascii "0123456789abcdef.:"

/-- The documented behaviour of `net.ParseIP` and `IP.String`. -/
structure Lib.Documented (lib : Lib) : Prop where
  parseIP_nil : lib.parseIP [] = none
  /-- An address with a zone is rejected. -/
  parseIP_zone : ∀ s, zoneSign ∈ s → lib.parseIP s = none
  length_ip : ∀ s ip, lib.parseIP s = some ip → ip.length = 16
  /-- Eight groups of four digits, the last two perhaps as an IPv4 address. -/
  length_text : ∀ s ip, lib.parseIP s = some ip → s.length ≤ 45
  ipString_inj : ∀ ip ip', ip.length = 16 → ip'.length = 16 → lib.ipString ip = lib.ipString ip' →
    ip = ip'
  /-- An IPv4 address is written alike with four bytes and with sixteen. -/
  ipString_to4 : ∀ ip ip4, Net.to4 ip = some ip4 → lib.ipString ip4 = lib.ipString ip
  /-- What is no address of either length has other texts. -/
  ipString_chars : ∀ ip, ip.length = 4 ∨ ip.length = 16 → ∀ b ∈ lib.ipString ip, b ∈ addressChars

/-- The client that an address text denotes. -/
inductive ClientAddr where
  | ip4 (ip : Bytes)
  /-- An IPv6 address that is not a mapped IPv4 address, perhaps with a zone. -/
  | ip6 (ip : Bytes) (zone : Option Bytes)
  deriving DecidableEq

/-- The client of a text without a zone. -/
def unzoned (lib : Lib) (host : Bytes) : Option ClientAddr :=
  (lib.parseIP host).map fun ip =>
    match Net.to4 ip with
    | some ip4 => .ip4 ip4
    | none => .ip6 ip none

/-- The text before the sign of a zone. -/
def hostOf (addr : Bytes) : Bytes := addr.takeWhile (· ≠ zoneSign)

/-- The client that a text denotes: an IPv4 address, an IPv6 address in any form, or one with a zone.
A zone is not empty, and no mapped IPv4 address has one. -/
def denotes (lib : Lib) (addr : Bytes) : Option ClientAddr :=
  if zoneSign ∈ addr then
    match unzoned lib (hostOf addr), (addr.dropWhile (· ≠ zoneSign)).tail with
    | some (.ip6 ip none), zone => if zone = [] then none else some (.ip6 ip (some zone))
    | _, _ => none
  else unzoned lib addr

namespace ClientAddr

/-- Two addresses of one client: the same IPv4 address, or IPv6 addresses of one /64 in one zone. -/
def SameClient : ClientAddr → ClientAddr → Prop
  | ip4 ip, ip4 ip' => ip = ip'
  | ip6 ip zone, ip6 ip' zone' => ip.take 8 = ip'.take 8 ∧ zone = zone'
  | _, _ => False

/-- The address has a zone. -/
def isZoned : ClientAddr → Bool
  | ip6 _ (some _) => true
  | _ => false

/-- The texts of two addresses with a zone tell their clients apart: a client has its addresses written
in one way before the sign, and behind the same address zones differ within the 64 bytes of a key. -/
def ToldApart (addr addr' : Bytes) : ClientAddr → ClientAddr → Prop
  | ip6 ip (some zone), ip6 ip' (some zone') =>
    let kept := 63 - (hostOf addr).length
    (ip.take 8 = ip'.take 8 ∧ zone = zone' → hostOf addr = hostOf addr') ∧
      (hostOf addr = hostOf addr' ∧ zone ≠ zone' → zone.take kept ≠ zone'.take kept)
  | _, _ => True

end ClientAddr

theorem hostOf_append {host : Bytes} (hhost : zoneSign ∉ host) (zone : Bytes) :
    hostOf (host ++ zoneSign :: zone) = host := by
  rw [hostOf, List.takeWhile_append_of_pos fun b hb => by simpa using ne_of_mem_of_not_mem hb hhost]
  simp

/-! ### The keys of the three kinds of addresses -/

/-- The /64 of an address: its first half, and zeros. -/
theorem mask_mask64 {ip : Bytes} (hlength : ip.length = 16) :
    Net.mask ip Net.mask64 = ip.take 8 ++ List.replicate 8 0 := by
  have hones : ∀ b : UInt8, b &&& 0xff = b := by
    intro b
    apply UInt8.toNat_inj.mp
    rw [UInt8.toNat_and]
    exact (Nat.and_two_pow_sub_one_eq_mod b.toNat 8).trans (Nat.mod_eq_of_lt b.toNat_lt)
  match ip, hlength with
  | [_, _, _, _, _, _, _, _, _, _, _, _, _, _, _, _], _ =>
    simp [Net.mask, Net.mask64, List.replicate, hones]

/-- Two mapped addresses with the same IPv4 address are the same. -/
theorem to4_inj {ip ip' ip4 : Bytes} (hlength : ip.length = 16) (hlength' : ip'.length = 16)
    (h : Net.to4 ip = some ip4) (h' : Net.to4 ip' = some ip4) : ip = ip' := by
  have hmapped : ∀ {ip : Bytes}, ip.length = 16 → Net.to4 ip = some ip4 →
      ip = (List.replicate 10 0 ++ [0xff, 0xff]) ++ ip4 := by
    intro ip hlength h
    unfold Net.to4 at h
    rw [if_neg (by omega)] at h
    split at h
    · rename_i hhead
      rw [← hhead.2, ← Option.some.inj h, List.take_append_drop]
    · cases h
  rw [hmapped hlength h, hmapped hlength' h']

section

variable {lib : Lib} (hlib : lib.Documented) {addr : Bytes}
include hlib

variable {ip : Bytes}

theorem ne_nil_of_parseIP (h : lib.parseIP addr = some ip) : addr ≠ [] := by
  rintro rfl
  rw [hlib.parseIP_nil] at h
  cases h

/-- An IPv4 address, mapped or not, has its text as its key. -/
theorem addressKey_of_ip4 {ip4 : Bytes} (h : denotes lib addr = some (.ip4 ip4)) :
    ∃ ip, ip.length = 16 ∧ Net.to4 ip = some ip4 ∧ addressKey lib addr = lib.ipString ip := by
  unfold denotes at h
  split at h
  · split at h
    · split at h <;> cases h
    · cases h
  · unfold unzoned at h
    obtain ⟨ip, hip, hclient⟩ := Option.map_eq_some_iff.mp h
    have hto4 : Net.to4 ip = some ip4 := by
      split at hclient
      · rename_i hto4
        rw [hto4, ClientAddr.ip4.inj hclient]
      · cases hclient
    refine ⟨ip, hlib.length_ip addr ip hip, hto4, ?_⟩
    rw [addressKey, if_neg (ne_nil_of_parseIP hlib hip), hip]
    simp only [hto4]
    exact hlib.ipString_to4 ip ip4 hto4

/-- An IPv6 address has its /64 as its key. -/
theorem addressKey_of_ip6 (h : denotes lib addr = some (.ip6 ip none)) :
    ip.length = 16 ∧
      addressKey lib addr = lib.ipString (ip.take 8 ++ List.replicate 8 0) ++ ascii "/64" := by
  unfold denotes at h
  split at h
  · split at h
    · split at h <;> cases h
    · cases h
  · unfold unzoned at h
    obtain ⟨ip', hip, hclient⟩ := Option.map_eq_some_iff.mp h
    split at hclient
    · cases hclient
    · rename_i hto4
      obtain ⟨rfl, -⟩ := ClientAddr.ip6.inj hclient
      have hlength := hlib.length_ip addr ip' hip
      refine ⟨hlength, ?_⟩
      rw [addressKey, if_neg (ne_nil_of_parseIP hlib hip), hip]
      simp only [hto4, mask_mask64 hlength]

omit hlib in
/-- An address with a zone is a text that can be parsed, the sign and the zone. -/
theorem exists_host_of_zoned {zone : Bytes} (h : denotes lib addr = some (.ip6 ip (some zone))) :
    ∃ host, addr = host ++ zoneSign :: zone ∧ zoneSign ∉ host ∧ lib.parseIP host = some ip := by
  unfold denotes at h
  split at h
  · rename_i hzone
    obtain ⟨host, rest, rfl, hhost⟩ := List.eq_append_cons_of_mem hzone
    have hrest : ((host ++ zoneSign :: rest).dropWhile (· ≠ zoneSign)).tail = rest := by
      rw [List.dropWhile_append_of_pos fun b hb => by simpa using ne_of_mem_of_not_mem hb hhost]
      simp
    rw [hostOf_append hhost, hrest] at h
    split at h
    · rename_i hclient
      obtain ⟨ip', hip, hip6⟩ := Option.map_eq_some_iff.mp hclient
      split at h
      · cases h
      · obtain ⟨rfl, hzone'⟩ := ClientAddr.ip6.inj (Option.some.inj h)
        cases hzone'
        split at hip6
        · cases hip6
        · exact ⟨host, rfl, hhost, (ClientAddr.ip6.inj hip6).1 ▸ hip⟩
    · cases h
  · unfold unzoned at h
    obtain ⟨ip', -, hclient⟩ := Option.map_eq_some_iff.mp h
    split at hclient <;> cases hclient

/-- An address with a zone has the beginning of its text as its key: the address is short, so the sign
is in it. -/
theorem addressKey_of_zoned {zone : Bytes} (h : denotes lib addr = some (.ip6 ip (some zone))) :
    zoneSign ∉ hostOf addr ∧ lib.parseIP (hostOf addr) = some ip ∧
      addressKey lib addr = hostOf addr ++ zoneSign :: zone.take (63 - (hostOf addr).length) := by
  obtain ⟨host, rfl, hhost, hip⟩ := exists_host_of_zoned h
  have hzone : zoneSign ∈ host ++ zoneSign :: zone := List.mem_append_right _ List.mem_cons_self
  have hshort := hlib.length_text host ip hip
  rw [hostOf_append hhost]
  refine ⟨hhost, hip, ?_⟩
  rw [addressKey, if_neg (List.ne_nil_of_mem hzone), hlib.parseIP_zone _ hzone]
  simp only
  rw [List.take_append, List.take_of_length_le (by omega), show 64 - host.length =
    (63 - host.length) + 1 by omega, List.take_succ_cons]

omit hlib in
theorem length_half (hlength : ip.length = 16) : (ip.take 8 ++ List.replicate 8 0).length = 16 := by
  simp [hlength]

theorem notMem_ipString {b : UInt8} (hb : b ∉ addressChars) (hlength : ip.length = 16) :
    b ∉ lib.ipString ip :=
  fun hmem => hb (hlib.ipString_chars ip (.inr hlength) b hmem)

/-- No key that is made from an IP address has the sign of a zone in it. -/
theorem zoneSign_notMem_addressKey {c : ClientAddr} (h : denotes lib addr = some c)
    (hzoned : c.isZoned = false) : zoneSign ∉ addressKey lib addr := by
  cases c with
  | ip4 ip4 =>
    obtain ⟨ip, hlength, -, hkey⟩ := addressKey_of_ip4 hlib h
    rw [hkey]
    exact notMem_ipString hlib (by decide) hlength
  | ip6 ip zone =>
    cases zone with
    | some zone => cases hzoned
    | none =>
      obtain ⟨hlength, hkey⟩ := addressKey_of_ip6 hlib h
      rw [hkey, List.mem_append, not_or]
      exact ⟨notMem_ipString hlib (by decide) (length_half hlength), by decide⟩

/-! ### Keys and clients -/

section

variable {addr' : Bytes}

theorem addressKey_eq_iff_ip4 {ip4 ip4' : Bytes} (h : denotes lib addr = some (.ip4 ip4))
    (h' : denotes lib addr' = some (.ip4 ip4')) :
    addressKey lib addr = addressKey lib addr' ↔ ip4 = ip4' := by
  obtain ⟨ip, hlength, hto4, hkey⟩ := addressKey_of_ip4 hlib h
  obtain ⟨ip', hlength', hto4', hkey'⟩ := addressKey_of_ip4 hlib h'
  rw [hkey, hkey']
  constructor
  · intro heq
    rw [hlib.ipString_inj ip ip' hlength hlength' heq, hto4', Option.some.injEq] at hto4
    exact hto4.symm
  · rintro rfl
    rw [to4_inj hlength hlength' hto4 hto4']

theorem addressKey_eq_iff_ip6 {ip ip' : Bytes} (h : denotes lib addr = some (.ip6 ip none))
    (h' : denotes lib addr' = some (.ip6 ip' none)) :
    addressKey lib addr = addressKey lib addr' ↔ ip.take 8 = ip'.take 8 := by
  obtain ⟨hlength, hkey⟩ := addressKey_of_ip6 hlib h
  obtain ⟨hlength', hkey'⟩ := addressKey_of_ip6 hlib h'
  rw [hkey, hkey', List.append_left_inj]
  constructor
  · intro heq
    have hmasked := hlib.ipString_inj _ _ (length_half hlength) (length_half hlength') heq
    exact List.append_cancel_right hmasked
  · intro heq
    rw [heq]

/-- The key of a /64 has a slash in it, that of an IPv4 address has none. -/
theorem addressKey_ne_of_ip4_of_ip6 {ip4 ip : Bytes} (h : denotes lib addr = some (.ip4 ip4))
    (h' : denotes lib addr' = some (.ip6 ip none)) :
    addressKey lib addr ≠ addressKey lib addr' := by
  obtain ⟨ip', hlength, -, hkey⟩ := addressKey_of_ip4 hlib h
  obtain ⟨-, hkey'⟩ := addressKey_of_ip6 hlib h'
  rw [hkey, hkey']
  intro heq
  have hslash : (0x2f : UInt8) ∈ lib.ipString ip' := by
    rw [heq]
    exact List.mem_append_right _ (by decide)
  exact notMem_ipString hlib (by decide) hlength hslash

theorem addressKey_ne_of_zoned {c : ClientAddr} {ip zone : Bytes} (h : denotes lib addr = some c)
    (hzoned : c.isZoned = false) (h' : denotes lib addr' = some (.ip6 ip (some zone))) :
    addressKey lib addr ≠ addressKey lib addr' := by
  obtain ⟨-, -, hkey'⟩ := addressKey_of_zoned hlib h'
  intro heq
  apply zoneSign_notMem_addressKey hlib h hzoned
  rw [heq, hkey']
  exact List.mem_append_right _ List.mem_cons_self

/-- Unless both have a zone, two addresses have the same key exactly if they are of one client. -/
theorem addressKey_eq_iff_sameClient {c c' : ClientAddr} (h : denotes lib addr = some c)
    (h' : denotes lib addr' = some c') (hzoned : ¬(c.isZoned = true ∧ c'.isZoned = true)) :
    addressKey lib addr = addressKey lib addr' ↔ c.SameClient c' := by
  match c, c', hzoned, h, h' with
  | .ip4 _, .ip4 _, _, h, h' => exact addressKey_eq_iff_ip4 hlib h h'
  | .ip4 _, .ip6 _ none, _, h, h' =>
    exact iff_of_false (addressKey_ne_of_ip4_of_ip6 hlib h h') not_false
  | .ip6 _ none, .ip4 _, _, h, h' =>
    exact iff_of_false (addressKey_ne_of_ip4_of_ip6 hlib h' h).symm not_false
  | .ip6 _ none, .ip6 _ none, _, h, h' =>
    exact (addressKey_eq_iff_ip6 hlib h h').trans (and_iff_left rfl).symm
  | .ip4 _, .ip6 _ (some _), _, h, h' =>
    exact iff_of_false (addressKey_ne_of_zoned hlib h rfl h') not_false
  | .ip6 _ (some _), .ip4 _, _, h, h' =>
    exact iff_of_false (addressKey_ne_of_zoned hlib h' rfl h).symm not_false
  -- with a zone and without one are different clients
  | .ip6 _ none, .ip6 _ (some _), _, h, h' =>
    exact iff_of_false (addressKey_ne_of_zoned hlib h rfl h') fun hsame => nomatch hsame.2
  | .ip6 _ (some _), .ip6 _ none, _, h, h' =>
    exact iff_of_false (addressKey_ne_of_zoned hlib h' rfl h).symm fun hsame => nomatch hsame.2
  | .ip6 _ (some _), .ip6 _ (some _), hzoned, _, _ => exact absurd ⟨rfl, rfl⟩ hzoned

/-- Two addresses with a zone have the same key exactly if the addresses are written alike and their
zones begin alike. -/
theorem addressKey_eq_iff_zoned {ip ip' zone zone' : Bytes}
    (h : denotes lib addr = some (.ip6 ip (some zone)))
    (h' : denotes lib addr' = some (.ip6 ip' (some zone'))) :
    addressKey lib addr = addressKey lib addr' ↔
      hostOf addr = hostOf addr' ∧
        zone.take (63 - (hostOf addr).length) = zone'.take (63 - (hostOf addr).length) := by
  obtain ⟨hhost, -, hkey⟩ := addressKey_of_zoned hlib h
  obtain ⟨hhost', -, hkey'⟩ := addressKey_of_zoned hlib h'
  rw [hkey, hkey']
  constructor
  · intro heq
    have hsame : hostOf addr = hostOf addr' := by
      rw [← hostOf_append hhost (zone.take _), heq, hostOf_append hhost']
    rw [← hsame, List.append_cancel_left_eq, List.cons.injEq] at heq
    exact ⟨hsame, heq.2⟩
  · rintro ⟨hsame, htake⟩
    rw [← hsame, htake]

/-- For all addresses, keys and clients agree exactly if the texts tell two clients with a zone
apart. -/
theorem addressKey_eq_iff_sameClient_iff {c c' : ClientAddr} (h : denotes lib addr = some c)
    (h' : denotes lib addr' = some c') :
    (addressKey lib addr = addressKey lib addr' ↔ c.SameClient c') ↔ c.ToldApart addr addr' c' := by
  by_cases hzoned : c.isZoned = true ∧ c'.isZoned = true
  · match c, c', hzoned, h, h' with
    | .ip6 ip (some zone), .ip6 ip' (some zone'), _, h, h' =>
      have hip := (addressKey_of_zoned hlib h).2.1
      have hip' := (addressKey_of_zoned hlib h').2.1
      rw [addressKey_eq_iff_zoned hlib h h']
      simp only [ClientAddr.SameClient, ClientAddr.ToldApart, Option.some.injEq]
      constructor
      · intro hagree
        refine ⟨fun hsame => (hagree.mpr hsame).1, fun hhost htake => ?_⟩
        exact hhost.2 (hagree.mp ⟨hhost.1, htake⟩).2
      · rintro ⟨hwritten, hkept⟩
        refine ⟨fun hkey => ?_, fun hsame => ?_⟩
        · -- the same text before the sign is the same address
          rw [hkey.1, hip', Option.some.injEq] at hip
          exact ⟨by rw [hip], by_contra fun hne => hkept ⟨hkey.1, hne⟩ hkey.2⟩
        · exact ⟨hwritten hsame, by rw [hsame.2]⟩
  · refine iff_of_true (addressKey_eq_iff_sameClient hlib h h' hzoned) ?_
    match c, c', hzoned with
    | .ip4 _, _, _ | .ip6 _ none, _, _ | .ip6 _ (some _), .ip4 _, _ | .ip6 _ (some _), .ip6 _ none, _ =>
      trivial
    | .ip6 _ (some _), .ip6 _ (some _), hzoned => exact absurd ⟨rfl, rfl⟩ hzoned

end

end

/-! ### A library for the examples -/

/-- The decimal digits of a byte. -/
def decimalByte (b : UInt8) : Bytes :=
  let digit (n : ℕ) : UInt8 := .ofNat (0x30 + n % 10)
  if b < 10 then [digit b.toNat]
  else if b < 100 then [digit (b.toNat / 10), digit b.toNat]
  else [digit (b.toNat / 100), digit (b.toNat / 10), digit b.toNat]

/-- Four bytes in dotted decimal form. -/
def dotted (ip4 : Bytes) : Bytes := [0x2e].intercalate (ip4.map decimalByte)

theorem decimalByte_injective : Function.Injective decimalByte := by
  have hvalue : ∀ n < 256,
      (decimalByte (.ofNat n)).foldl (fun v d => v * 10 + (d.toNat - 0x30)) 0 = n := by
    decide +kernel
  intro b c h
  have hb := hvalue b.toNat b.toNat_lt
  have hc := hvalue c.toNat c.toNat_lt
  rw [UInt8.ofNat_toNat] at hb hc
  rw [h, hc] at hb
  exact UInt8.toNat_inj.mp hb.symm

theorem mem_decimalByte (n : ℕ) (hn : n < 256) :
    ∀ d ∈ decimalByte (.ofNat n), d ∈ addressChars ∧ d ≠ 0x2e := by
  have hall : ∀ n < 256,
      (decimalByte (.ofNat n)).all (fun d => d ∈ addressChars ∧ d ≠ 0x2e) = true := by
    decide +kernel
  exact fun d hd => of_decide_eq_true (List.all_eq_true.mp (hall n hn) d hd)

/-- What `IP.String` writes for IPv4 addresses, and the plain digits of an IPv6 address. -/
def plainString (ip : Bytes) : Bytes :=
  match Net.to4 ip with
  | some ip4 => dotted ip4
  | none => ip.flatMap hexByte

variable {ip4 ip : Bytes}

theorem dotted_injective {ip4' : Bytes} (hne : ip4 ≠ []) (hne' : ip4' ≠ [])
    (h : dotted ip4 = dotted ip4') : ip4 = ip4' := by
  have hsplit : ∀ ip : Bytes, ip ≠ [] → List.splitOn 0x2e (dotted ip) = ip.map decimalByte := by
    intro ip hne
    refine List.splitOn_intercalate _ (fun l hl => ?_) (by simpa using hne)
    obtain ⟨b, -, rfl⟩ := List.mem_map.mp hl
    intro hdot
    have hdigit := mem_decimalByte b.toNat b.toNat_lt 0x2e
    rw [UInt8.ofNat_toNat] at hdigit
    exact (hdigit hdot).2 rfl
  have hmap := hsplit ip4 hne
  rw [h, hsplit ip4' hne'] at hmap
  exact (List.map_injective_iff.mpr decimalByte_injective hmap).symm

theorem mem_dotted {b : UInt8} (h : b ∈ dotted ip4) : b ∈ addressChars := by
  have hdigit : ∀ c : UInt8, ∀ d ∈ decimalByte c, d ∈ addressChars := by
    intro c d hd
    refine (mem_decimalByte c.toNat c.toNat_lt d ?_).1
    rwa [UInt8.ofNat_toNat]
  cases ip4 with
  | nil => exact absurd h List.not_mem_nil
  | cons c ip4 =>
    rw [dotted, List.map_cons, intercalate_singleton_cons, List.mem_append] at h
    rcases h with h | h
    · exact hdigit c b h
    · obtain ⟨l, hl, hb⟩ := List.mem_flatMap.mp h
      obtain ⟨c', -, rfl⟩ := List.mem_map.mp hl
      rcases List.mem_cons.mp hb with rfl | hb
      · decide
      · exact hdigit c' b hb

theorem dot_mem_dotted (hlength : ip4.length = 4) : 0x2e ∈ dotted ip4 := by
  match ip4, hlength with
  | [a, b, c, d], _ =>
    rw [dotted, List.map_cons, intercalate_singleton_cons]
    exact List.mem_append_right _ List.mem_cons_self

theorem mem_hexByte {b : UInt8} (h : b ∈ ip.flatMap hexByte) : b ∈ addressChars ∧ b ≠ 0x2e := by
  obtain ⟨c, -, hc⟩ := List.mem_flatMap.mp h
  exact forall_mem_hexByte (p := fun d => d ∈ addressChars ∧ d ≠ 0x2e) (by decide +kernel) hc

theorem length_of_to4 (h : Net.to4 ip = some ip4) : ip4.length = 4 := by
  unfold Net.to4 at h
  split at h
  · rename_i hlength
    rw [← Option.some.inj h, hlength]
  · split at h
    · rename_i hmapped
      rw [← Option.some.inj h, List.length_drop, hmapped.1]
    · cases h

theorem plainString_injective {ip' : Bytes} (hlength : ip.length = 16) (hlength' : ip'.length = 16)
    (h : plainString ip = plainString ip') : ip = ip' := by
  unfold plainString at h
  split at h
  · rename_i ip4 hto4
    have h4 := length_of_to4 hto4
    split at h
    · rename_i ip4' hto4'
      have h4' := length_of_to4 hto4'
      have heq : ip4 = ip4' := dotted_injective (by rintro rfl; cases h4) (by rintro rfl; cases h4') h
      exact to4_inj hlength hlength' hto4 (heq ▸ hto4')
    · exact absurd rfl (mem_hexByte (h ▸ dot_mem_dotted h4)).2
  · split at h
    · rename_i ip4' hto4'
      exact absurd rfl (mem_hexByte (h ▸ dot_mem_dotted (length_of_to4 hto4'))).2
    · exact Traffic.flatMap_hexByte_injective h

/-- The texts of the examples. -/
def exampleIPs : List (Bytes × Bytes) :=
  let mapped (ip4 : Bytes) : Bytes := List.replicate 10 0 ++ [0xff, 0xff] ++ ip4
  let linkLocal (last : UInt8) : Bytes := [0xfe, 0x80] ++ List.replicate 13 0 ++ [last]
  [(ascii "203.0.113.7", mapped [203, 0, 113, 7]),
    (ascii "::ffff:203.0.113.7", mapped [203, 0, 113, 7]),
    (ascii "fe80::1", linkLocal 1),
    (ascii "fe80::2", linkLocal 2)]

/-- The library on these texts. -/
def exampleLib : Lib where
  uuidString := Traffic.hyphenated
  parseIP := fun s => exampleIPs.lookup s
  ipString := plainString

theorem documented_exampleLib : exampleLib.Documented := by
  have htable : ∀ p ∈ exampleIPs, zoneSign ∉ p.1 ∧ p.2.length = 16 ∧ p.1.length ≤ 45 := by
    decide +kernel
  have hlookup : ∀ s ip, exampleLib.parseIP s = some ip → (s, ip) ∈ exampleIPs := by
    intro s ip h
    obtain ⟨l₁, l₂, heq, -⟩ := List.lookup_eq_some_iff.mp h
    rw [heq]
    exact List.mem_append_right _ List.mem_cons_self
  exact
    { parseIP_nil := by decide +kernel
      parseIP_zone := fun s hzone => by
        by_contra hne
        obtain ⟨ip, hip⟩ := Option.ne_none_iff_exists'.mp hne
        exact (htable _ (hlookup s ip hip)).1 hzone
      length_ip := fun s ip h => (htable _ (hlookup s ip h)).2.1
      length_text := fun s ip h => (htable _ (hlookup s ip h)).2.2
      ipString_inj := fun ip ip' => plainString_injective
      ipString_to4 := fun ip ip4 h => by
        have h4 : Net.to4 ip4 = some ip4 := if_pos (length_of_to4 h)
        show plainString ip4 = plainString ip
        rw [plainString, plainString, h, h4]
      ipString_chars := fun ip _ b hb => by
        change b ∈ plainString ip at hb
        unfold plainString at hb
        split at hb
        · exact mem_dotted hb
        · exact (mem_hexByte hb).1 }

/-- An IPv4 address and its mapped form share a bucket. -/
theorem addressKey_eq_iff_sameClient_iff_mapped : let c : ClientAddr := .ip4 [203, 0, 113, 7]
    denotes exampleLib (ascii "203.0.113.7") = some c ∧
      denotes exampleLib (ascii "::ffff:203.0.113.7") = some c ∧
      addressKey exampleLib (ascii "203.0.113.7") = ascii "203.0.113.7" ∧
      ((addressKey exampleLib (ascii "203.0.113.7") =
          addressKey exampleLib (ascii "::ffff:203.0.113.7") ↔ c.SameClient c) ↔
        c.ToldApart (ascii "203.0.113.7") (ascii "::ffff:203.0.113.7") c) := by
  have h : denotes exampleLib (ascii "203.0.113.7") = some (.ip4 [203, 0, 113, 7]) := by
    decide +kernel
  have h' : denotes exampleLib (ascii "::ffff:203.0.113.7") = some (.ip4 [203, 0, 113, 7]) := by
    decide +kernel
  exact ⟨h, h', by decide +kernel, addressKey_eq_iff_sameClient_iff documented_exampleLib h h'⟩

/-- Two addresses of one link, of one /64 and in one zone, have different keys. -/
theorem addressKey_ne_of_linkLocal :
    ∃ c c' : ClientAddr, exampleLib.Documented ∧
      denotes exampleLib (ascii "fe80::1%eth0") = some c ∧
      denotes exampleLib (ascii "fe80::2%eth0") = some c' ∧
      c.SameClient c' ∧
      addressKey exampleLib (ascii "fe80::1%eth0") ≠ addressKey exampleLib (ascii "fe80::2%eth0") := by
  refine ⟨.ip6 ([0xfe, 0x80] ++ List.replicate 13 0 ++ [1]) (some (ascii "eth0")),
    .ip6 ([0xfe, 0x80] ++ List.replicate 13 0 ++ [2]) (some (ascii "eth0")),
    documented_exampleLib, by decide +kernel, by decide +kernel, ⟨by decide, rfl⟩,
    by decide +kernel⟩

end HttpWare
