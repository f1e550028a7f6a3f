import BackendKit.GoStd.Url
import Mathlib.Algebra.Group.Int.Defs
import Mathlib.Algebra.Group.Nat.Defs
import Mathlib.Algebra.Order.Group.Int
import Mathlib.Order.Bounds.Defs
import Mathlib.Order.Lattice
import Mathlib.Tactic.Set

/-!
# Pages of a list

`pagination/pagination.go`: the page and its size from the query string of a request, and the number
of pages of a list. A page stands for a window of the list; the windows of the pages that
`newPagedResponse` counts cover the list without overlap (`existsUnique_page`).

The page number comes from the client and has no upper bound, so the product in `Params.offset` may
wrap. `parse_covers_iff` says when it does not.
-/

open GoStd

namespace Pagination

/-- The first result of `strconv.Atoi`: zero for what is not a number, the nearest bound for one that
is out of range. -/
def atoi (s : Bytes) : Int64 :=
  let (negative, ds) : Bool × List Char :=
    match s.map Char.ofUInt8 with
    | '-' :: ds => (true, ds)
    | '+' :: ds => (false, ds)
    | ds => (false, ds)
  let value : Option ℕ :=
    match digits? ds with
    | some n => some n
    -- digits beyond 64 bits are out of range, whatever follows them
    | none => (digits? (ds.takeWhile Char.isDigit)).filter (2 ^ 64 ≤ ·)
  match value with
  | none => 0
  | some n => Int64.ofInt (max (-2 ^ 63) (min (2 ^ 63 - 1) (if negative then -(n : ℤ) else n)))

/-- Parsed pagination parameters; an `int` has 64 bits. -/
structure Params where
  page : Int64
  perPage : Int64
  offset : Int64
  deriving DecidableEq

/-- `DefaultPerPage`. -/
def defaultPerPage : Int64 := 20

/-- `MaxPerPage`. -/
def maxPerPage : Int64 := 100

/-- The page of a request, by its query string. -/
def pageOf (query : Bytes) : Int64 :=
  let page := atoi (Url.queryGet query (ascii "page"))
  if page < 1 then 1 else page

/-- The page size of a request, by its query string. -/
def perPageOf (query : Bytes) : Int64 :=
  let perPage := atoi (Url.queryGet query (ascii "per_page"))
  let perPage := if perPage < 1 then defaultPerPage else perPage
  if maxPerPage < perPage then maxPerPage else perPage

/-- The parameters of a page. -/
def Params.ofPage (page perPage : Int64) : Params :=
  { page, perPage, offset := (page - 1) * perPage }

/-- `Parse`. -/
def parse (query : Bytes) : Params := Params.ofPage (pageOf query) (perPageOf query)

/-- A list result with pagination metadata. -/
structure PagedResponse (α : Type) where
  data : α
  page : Int64
  perPage : Int64
  totalItems : Int64
  totalPages : Int64

/-- `NewPagedResponse`. Integer division panics for a `perPage` of zero, which `parse` never gives. -/
def newPagedResponse {α : Type} (data : α) (params : Params) (totalItems : Int64) :
    PagedResponse α :=
  let totalPages := totalItems / params.perPage
  let totalPages := if 0 < totalItems % params.perPage then totalPages + 1 else totalPages
  { data, page := params.page, perPage := params.perPage, totalItems, totalPages }

/-! ### The bounds of the parameters -/

theorem one_le_pageOf (query : Bytes) : 1 ≤ (pageOf query).toInt := by
  unfold pageOf
  simp only
  split
  · decide
  · rename_i h
    exact Int64.le_iff_toInt_le.mp (Int64.not_lt.mp h)

theorem perPageOf_bounds (query : Bytes) :
    1 ≤ (perPageOf query).toInt ∧ (perPageOf query).toInt ≤ 100 := by
  unfold perPageOf
  simp only
  split
  · -- the default lies between the bounds
    decide
  rename_i hlow
  split
  · decide
  · rename_i hhigh
    exact ⟨Int64.le_iff_toInt_le.mp (Int64.not_lt.mp hlow),
      Int64.le_iff_toInt_le.mp (Int64.not_lt.mp hhigh)⟩

/-- A number in the range of an `int64` does not wrap. -/
theorem bmod_eq_self {i : ℤ} (hlow : -2 ^ 63 ≤ i) (hhigh : i < 2 ^ 63) : i.bmod (2 ^ 64) = i := by
  apply Int.bmod_eq_of_le <;> omega

/-- The offset is the product, wrapped. -/
theorem toInt_offset_ofPage {page : Int64} (hpage : 1 ≤ page.toInt) (perPage : Int64) :
    (Params.ofPage page perPage).offset.toInt =
      ((page.toInt - 1) * perPage.toInt).bmod (2 ^ 64) := by
  have hlt := page.toInt_lt
  have hsub : (page - 1).toInt = page.toInt - 1 := by
    rw [Int64.toInt_sub]
    exact bmod_eq_self (by simp; omega) (by simp; omega)
  rw [Params.ofPage, Int64.toInt_mul, hsub]

/-! ### The number of pages -/

variable {α : Type} {params : Params} {totalItems : Int64}

/-- The number of pages as an integer: rounding up, nothing wraps. -/
theorem toInt_totalPages (data : α) (hper : 1 ≤ params.perPage.toInt) (htotal : 0 ≤ totalItems.toInt) :
    (newPagedResponse data params totalItems).totalPages.toInt =
      totalItems.toInt / params.perPage.toInt +
        if 0 < totalItems.toInt % params.perPage.toInt then 1 else 0 := by
  have hlt := totalItems.toInt_lt
  have hquot : 0 ≤ totalItems.toInt / params.perPage.toInt := Int.ediv_nonneg htotal (by omega)
  have hle : totalItems.toInt / params.perPage.toInt ≤ totalItems.toInt :=
    Int.ediv_le_self _ htotal
  have hdiv : (totalItems / params.perPage).toInt = totalItems.toInt / params.perPage.toInt := by
    rw [Int64.toInt_div, Int.tdiv_eq_ediv_of_nonneg htotal]
    exact bmod_eq_self (by omega) (by omega)
  have hmod : (totalItems % params.perPage).toInt = totalItems.toInt % params.perPage.toInt := by
    rw [Int64.toInt_mod, Int.tmod_eq_emod_of_nonneg htotal]
  have hpos : 0 < totalItems % params.perPage ↔ 0 < totalItems.toInt % params.perPage.toInt := by
    rw [Int64.lt_iff_toInt_lt, hmod]
    rfl
  simp only [newPagedResponse, hpos]
  split
  · -- with a remainder the page size is not one, so there is room for one page more
    rename_i hrem
    have hone : params.perPage.toInt ≠ 1 := by
      intro hone
      rw [hone, Int.emod_one] at hrem
      exact absurd hrem (by decide)
    have hhalf : totalItems.toInt / params.perPage.toInt < totalItems.toInt / 2 + 1 :=
      Int.ediv_lt_of_lt_mul (by omega) <|
        calc totalItems.toInt
            < (totalItems.toInt / 2 + 1) * 2 := Int.lt_ediv_add_one_mul_self _ (by decide)
          _ ≤ (totalItems.toInt / 2 + 1) * params.perPage.toInt :=
            Int.mul_le_mul_of_nonneg_left (by omega) (by omega)
    rw [Int64.toInt_add, hdiv]
    exact bmod_eq_self (by simp; omega) (by simp; omega)
  · rw [hdiv, Int.add_zero]

/-- The number of pages is the least that has room for all items. -/
theorem isLeast_totalPages (data : α) (hper : 1 ≤ params.perPage.toInt)
    (htotal : 0 ≤ totalItems.toInt) :
    IsLeast {pages : ℤ | totalItems.toInt ≤ pages * params.perPage.toInt}
      (newPagedResponse data params totalItems).totalPages.toInt := by
  rw [toInt_totalPages data hper htotal]
  have hpos : 0 < params.perPage.toInt := by omega
  split
  · rename_i hrem
    refine ⟨(Int.lt_ediv_add_one_mul_self _ hpos).le, fun pages hpages => ?_⟩
    have hroom : totalItems.toInt ≤ pages * params.perPage.toInt := hpages
    -- with a remainder the last page is not full
    have hne : totalItems.toInt ≠ pages * params.perPage.toInt := by
      intro heq
      rw [heq, Int.mul_emod_left] at hrem
      exact absurd hrem (by decide)
    exact Int.ediv_lt_of_lt_mul hpos (by omega)
  · rename_i hrem
    have hzero : totalItems.toInt % params.perPage.toInt = 0 :=
      le_antisymm (not_lt.mp hrem) (Int.emod_nonneg _ hpos.ne')
    rw [Int.add_zero]
    refine ⟨(Int.ediv_mul_cancel_of_emod_eq_zero hzero).ge, fun pages hpages => ?_⟩
    exact Int.ediv_le_of_le_mul hpos hpages

/-- No offset of a page that counts wraps: the page before the last has no room for all items. -/
theorem toInt_offset_of_le_totalPages (data : α) (hper : 1 ≤ params.perPage.toInt)
    (htotal : 0 ≤ totalItems.toInt) (page : Int64) (hone : 1 ≤ page.toInt)
    (hle : page.toInt ≤ (newPagedResponse data params totalItems).totalPages.toInt) :
    (Params.ofPage page params.perPage).offset.toInt =
      (page.toInt - 1) * params.perPage.toInt := by
  have htotal_lt := totalItems.toInt_lt
  have hnonneg : 0 ≤ (page.toInt - 1) * params.perPage.toInt :=
    Int.mul_nonneg (by omega) (by omega)
  have hbefore : (page.toInt - 1) * params.perPage.toInt < totalItems.toInt := by
    by_contra hge
    have hpages := (isLeast_totalPages data hper htotal).2 (not_lt.mp hge)
    omega
  rw [toInt_offset_ofPage hone]
  exact bmod_eq_self (by omega) (by omega)

/-- Every item lies in the window of exactly one of the pages. -/
theorem existsUnique_page (data : α) (hper : 1 ≤ params.perPage.toInt)
    (htotal : 0 ≤ totalItems.toInt) {i : ℤ} (hi : 0 ≤ i) (hlt : i < totalItems.toInt) :
    ∃! page : Int64, 1 ≤ page.toInt ∧
      page.toInt ≤ (newPagedResponse data params totalItems).totalPages.toInt ∧
      (Params.ofPage page params.perPage).offset.toInt ≤ i ∧
      i < (Params.ofPage page params.perPage).offset.toInt + params.perPage.toInt := by
  have hpos : 0 < params.perPage.toInt := by omega
  have hroom := (isLeast_totalPages data hper htotal).1
  have hoffset := toInt_offset_of_le_totalPages data hper htotal
  set pages := (newPagedResponse data params totalItems).totalPages.toInt
  -- the page of an item is the quotient by the page size, counted from one
  have hquot : 0 ≤ i / params.perPage.toInt := Int.ediv_nonneg hi hpos.le
  have hquot_lt : i / params.perPage.toInt < pages :=
    Int.ediv_lt_of_lt_mul hpos (lt_of_lt_of_le hlt hroom)
  have hpages_lt := (newPagedResponse data params totalItems).totalPages.toInt_lt
  have hpage : (Int64.ofInt (i / params.perPage.toInt + 1)).toInt =
      i / params.perPage.toInt + 1 := by
    rw [Int64.toInt_ofInt]
    exact bmod_eq_self (by omega) (by omega)
  refine ⟨Int64.ofInt (i / params.perPage.toInt + 1), ⟨?_, ?_, ?_, ?_⟩, ?_⟩
  · omega
  · omega
  · rw [hoffset _ (by omega) (by omega), hpage, Int.add_sub_cancel]
    exact Int.ediv_mul_le _ hpos.ne'
  · rw [hoffset _ (by omega) (by omega), hpage, Int.add_sub_cancel]
    have hnext := Int.lt_ediv_add_one_mul_self i hpos
    rwa [Int.add_mul, Int.one_mul] at hnext
  · rintro page ⟨hone, hle, hlow, hhigh⟩
    rw [hoffset page hone hle] at hlow hhigh
    have hge : page.toInt - 1 ≤ i / params.perPage.toInt := Int.le_ediv_of_mul_le hpos hlow
    have hlt' : i / params.perPage.toInt < page.toInt - 1 + 1 := by
      apply Int.ediv_lt_of_lt_mul hpos
      rwa [Int.add_mul, Int.one_mul]
    apply Int64.toInt_inj.mp
    rw [hpage]
    omega

/-! ### What a client gets -/

/-- The parameters are in bounds, the offset is the true product, and the pages of every list cover
its items without overlap. -/
structure Params.Covers (params : Params) : Prop where
  one_le_page : 1 ≤ params.page.toInt
  one_le_perPage : 1 ≤ params.perPage.toInt
  perPage_le : params.perPage.toInt ≤ 100
  offset_eq : params.offset.toInt = (params.page.toInt - 1) * params.perPage.toInt
  offset_nonneg : 0 ≤ params.offset.toInt
  /-- The number of pages is the least that has room for all items. -/
  totalPages_least : ∀ {α : Type} (data : α) (totalItems : Int64), 0 ≤ totalItems.toInt →
    IsLeast {pages : ℤ | totalItems.toInt ≤ pages * params.perPage.toInt}
      (newPagedResponse data params totalItems).totalPages.toInt
  /-- Every item lies in the window of exactly one page. -/
  page_unique : ∀ {α : Type} (data : α) (totalItems : Int64) (i : ℤ), 0 ≤ i →
    i < totalItems.toInt →
    ∃! page : Int64, 1 ≤ page.toInt ∧
      page.toInt ≤ (newPagedResponse data params totalItems).totalPages.toInt ∧
      (Params.ofPage page params.perPage).offset.toInt ≤ i ∧
      i < (Params.ofPage page params.perPage).offset.toInt + params.perPage.toInt

/-- For every query string, everything holds exactly if the product of the page before and the page
size fits an `int`. -/
theorem parse_covers_iff (query : Bytes) :
    (parse query).Covers ↔ ((pageOf query).toInt - 1) * (perPageOf query).toInt < 2 ^ 63 := by
  have hpage := one_le_pageOf query
  obtain ⟨hlow, hhigh⟩ := perPageOf_bounds query
  have hoffset := toInt_offset_ofPage hpage (perPageOf query)
  constructor
  · intro h
    have heq : (parse query).offset.toInt =
        ((pageOf query).toInt - 1) * (perPageOf query).toInt := h.offset_eq
    rw [← heq]
    exact (parse query).offset.toInt_lt
  · intro hfits
    have hnonneg : 0 ≤ ((pageOf query).toInt - 1) * (perPageOf query).toInt :=
      Int.mul_nonneg (by omega) (by omega)
    rw [bmod_eq_self (by omega) hfits] at hoffset
    have hper : 1 ≤ (parse query).perPage.toInt := hlow
    exact
      { one_le_page := hpage
        one_le_perPage := hper
        perPage_le := hhigh
        offset_eq := hoffset
        offset_nonneg := hnonneg.trans_eq hoffset.symm
        totalPages_least := fun data totalItems htotal => isLeast_totalPages data hper htotal
        page_unique := fun data totalItems i hi hlt =>
          existsUnique_page data hper (hi.trans hlt.le) hi hlt }

/-- The largest page number that a client can send gives a negative offset. -/
theorem not_covers_parse_maxInt :
    ¬(parse (ascii "page=9223372036854775807&per_page=20")).Covers := by
  intro h
  have hoffset : (parse (ascii "page=9223372036854775807&per_page=20")).offset = -40 := by
    decide +kernel
  have hnonneg := h.offset_nonneg
  rw [hoffset] at hnonneg
  exact absurd hnonneg (by decide)

end Pagination
