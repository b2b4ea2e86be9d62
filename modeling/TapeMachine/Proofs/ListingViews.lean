import Mathlib.Data.List.MinMax
import Mathlib.Order.Nat
import TapeMachine.Proofs.Layout

/-!
# The views of a listing

A listing can be seen as its words with their addresses, as an image, and as the entry
at each address. Entries may leave gaps, overlap and come in any order. The image then
takes the last word for an address and the search takes the first entry, so that the
two agree wherever an address is not given twice. The search works with the address
behind an entry, which does not exist for an entry that ends at the largest address.
Such an entry is never found.
-/

namespace TapeMachine

/-! ## One entry -/

namespace Entry

/-- All words of an entry lie at addresses: from zero on, up to the largest word. -/
def Addressed (e : Entry) : Prop :=
  ∀ i < e.codes.length, 0 ≤ e.ip.toInt + i ∧ e.ip.toInt + i < 2 ^ 63

/-- An entry has a word at an address. -/
def HasWordAt (e : Entry) (ip : Word) : Prop :=
  ∃ i < e.codes.length, e.ip.toInt + i = ip.toInt

/-- The last word of an entry lies at the largest address. -/
def EndsAtTop (e : Entry) : Prop := e.ip.toInt + e.codes.length = 2 ^ 63

instance (e : Entry) : Decidable e.Addressed :=
  inferInstanceAs (Decidable (∀ i < e.codes.length,
    0 ≤ e.ip.toInt + i ∧ e.ip.toInt + i < 2 ^ 63))

instance (e : Entry) (ip : Word) : Decidable (e.HasWordAt ip) :=
  inferInstanceAs (Decidable (∃ i < e.codes.length, e.ip.toInt + i = ip.toInt))

instance (e : Entry) : Decidable e.EndsAtTop :=
  inferInstanceAs (Decidable (e.ip.toInt + e.codes.length = 2 ^ 63))

namespace Addressed

variable {e : Entry}

/-- The words of an entry with addresses end at the top or below it. -/
theorem toInt_bounds (h : e.Addressed) (hcodes : 0 < e.codes.length) :
    0 ≤ e.ip.toInt ∧ e.ip.toInt + e.codes.length ≤ 2 ^ 63 := by
  have hfirst := (h 0 hcodes).1
  have hlast := (h (e.codes.length - 1) (by omega)).2
  omega

/-- The addresses of an entry do not wrap. -/
theorem toInt_add (h : e.Addressed) {i : Nat} (hi : i < e.codes.length) :
    (e.ip + Int64.ofNat i).toInt = e.ip.toInt + i := by
  have hbounds := h.toInt_bounds (by omega)
  have hindex : (Int64.ofNat i).toInt = i := Int64.toInt_ofNat_of_lt (by omega)
  rw [Int64.toInt_add, hindex]
  exact Int.bmod_eq_of_le (by omega) (by omega)

/-- The words of an entry have the addresses from its own on. -/
theorem mem_located_iff (h : e.Addressed) {ip code : Word} :
    (ip, code) ∈ e.located ↔ ∃ i : Nat, e.codes[i]? = some code ∧ e.ip.toInt + i = ip.toInt := by
  rw [located, List.mem_map]
  constructor
  · rintro ⟨⟨found, i⟩, hfound, heq⟩
    cases heq
    rw [List.mk_mem_zipIdx_iff_getElem?] at hfound
    have hi := (List.getElem?_eq_some_iff.mp hfound).1
    exact ⟨i, hfound, (h.toInt_add hi).symm⟩
  · rintro ⟨i, hcode, hip⟩
    have hi := (List.getElem?_eq_some_iff.mp hcode).1
    refine ⟨(code, i), List.mk_mem_zipIdx_iff_getElem?.mpr hcode, ?_⟩
    rw [Prod.mk.injEq, ← Int64.toInt_inj, h.toInt_add hi]
    exact ⟨hip, rfl⟩

/-- The words that are located are those that an entry has. -/
theorem hasWordAt_iff (h : e.Addressed) {ip : Word} :
    e.HasWordAt ip ↔ ∃ code, (ip, code) ∈ e.located := by
  simp only [h.mem_located_iff]
  constructor
  · rintro ⟨i, hi, hip⟩
    exact ⟨e.codes[i], i, List.getElem?_eq_getElem hi, hip⟩
  · rintro ⟨code, i, hcode, hip⟩
    exact ⟨i, (List.getElem?_eq_some_iff.mp hcode).1, hip⟩

/-- The address behind an entry wraps if the entry ends at the largest address. -/
private theorem toInt_next (h : e.Addressed) (hcodes : 0 < e.codes.length) :
    (¬ e.EndsAtTop → e.next.toInt = e.ip.toInt + e.codes.length) ∧
      (e.EndsAtTop → e.next.toInt = -2 ^ 63) := by
  have hbounds := h.toInt_bounds hcodes
  have hnext : e.next = Int64.ofInt (e.ip.toInt + e.codes.length) := by
    rw [next, ← length_codes, Int64.ofInt_add, Int64.ofInt_toInt]
    rfl
  unfold EndsAtTop
  rw [hnext]
  refine ⟨fun hbelow => ?_, fun htop => ?_⟩
  · exact Int64.toInt_ofInt_of_le (by omega) (by omega)
  · rw [htop]
    decide

/-- The search takes an entry for the addresses of its words, unless it ends at the top. -/
theorem covers_iff (h : e.Addressed) (ip : Word) :
    e.covers ip = true ↔ e.HasWordAt ip ∧ ¬ e.EndsAtTop := by
  rw [covers, Bool.and_eq_true, decide_eq_true_eq, decide_eq_true_eq, Int64.le_iff_toInt_le,
    Int64.lt_iff_toInt_lt]
  by_cases hcodes : 0 < e.codes.length
  · obtain ⟨hbelow, htop⟩ := h.toInt_next hcodes
    have hleast := ip.le_toInt
    constructor
    · rintro ⟨hfirst, hlast⟩
      have hnot : ¬ e.EndsAtTop := by
        intro hends
        rw [htop hends] at hlast
        omega
      rw [hbelow hnot] at hlast
      exact ⟨⟨(ip.toInt - e.ip.toInt).toNat, by omega, by omega⟩, hnot⟩
    · rintro ⟨⟨i, hi, hip⟩, hnot⟩
      rw [hbelow hnot]
      omega
  · -- Without words there is no first address either, so nothing is known of `e.ip`.
    have hnext : e.next = e.ip := by
      have hnil : e.terms.length = 0 := by
        rw [← length_codes]
        omega
      rw [next, hnil]
      exact Int64.add_zero _
    rw [hnext]
    constructor
    · rintro ⟨hfirst, hlast⟩
      omega
    · rintro ⟨⟨i, hi, _⟩, _⟩
      omega

/-- The place of a word is its distance from the first one. -/
theorem toInt_sub (h : e.Addressed) {ip : Word} {i : Nat} (hi : i < e.codes.length)
    (hip : e.ip.toInt + i = ip.toInt) : (ip - e.ip).toInt = i := by
  have hbounds := h.toInt_bounds (by omega)
  have hdistance : ip.toInt - e.ip.toInt = i := by omega
  rw [Int64.toInt_sub, hdistance]
  exact Int.bmod_eq_of_le (by omega) (by omega)

end Addressed

end Entry

namespace Listing

/-! ## The image -/

/-- Placing a word makes an image reach its address. -/
theorem size_place (image : Array Word) (a : Nat) (code : Word) :
    (place image a code).size = max image.size (a + 1) := by
  unfold place
  dsimp only
  rw [Array.size_setIfInBounds]
  split
  · omega
  · rw [Array.size_append, Array.size_replicate]
    omega

/-- Placing a word changes no other cell, where a missing cell counts as zero. -/
theorem getD_place (image : Array Word) (a : Nat) (code : Word) (b : Nat) :
    (place image a code).getD b 0 = if b = a then code else image.getD b 0 := by
  have hsize := size_place image a code
  by_cases hb : b = a
  · subst hb
    have hinside : b < (place image b code).size := by omega
    rw [if_pos rfl, Array.getD, dif_pos hinside]
    exact Array.getElem_setIfInBounds_self _
  · rw [if_neg hb, Array.getD_eq_getD_getElem?, Array.getD_eq_getD_getElem?]
    unfold place
    dsimp only
    rw [Array.getElem?_setIfInBounds_ne (Ne.symm hb)]
    split
    · rfl
    · rw [Array.getElem?_append]
      split
      · rfl
      · next hpast =>
        rw [Array.getElem?_replicate, Array.getElem?_eq_none (Nat.not_lt.mp hpast)]
        split <;> rfl

/-- The last word that is given for an address. -/
def lastCode? (words : List (Word × Word)) (ip : Word) : Option Word := words.reverse.lookup ip

/-- A word behind others is the last one at its address. -/
theorem lastCode?_cons (ip code : Word) (words : List (Word × Word)) (other : Word) :
    lastCode? ((ip, code) :: words) other =
      (lastCode? words other).or (if other = ip then some code else none) := by
  rw [lastCode?, List.reverse_cons, List.lookup_append, lastCode?, List.lookup_cons]
  split <;> simp_all

/-- If no address is given twice, the last word for it is the only one. -/
theorem lastCode?_of_nodup {words : List (Word × Word)} (hnodup : (words.map Prod.fst).Nodup)
    {ip code : Word} (hmem : (ip, code) ∈ words) : lastCode? words ip = some code := by
  induction words with
  | nil => cases hmem
  | cons word words ih =>
    rw [List.map_cons, List.nodup_cons] at hnodup
    rw [lastCode?_cons]
    rcases List.mem_cons.mp hmem with rfl | hmem
    · have hnone : lastCode? words ip = none := by
        rw [lastCode?, List.lookup_eq_none_iff]
        intro other hother
        rw [bne_iff_ne]
        intro heq
        exact hnodup.1 (List.mem_map.mpr ⟨other, List.mem_reverse.mp hother, heq.symm⟩)
      rw [hnone, if_pos rfl, Option.none_or]
    · rw [ih hnodup.2 hmem, Option.some_or]

/-- Words at addresses are placed without fail. The image then reaches the furthest of
them, and each cell has the last word given for it, or else what it had before. -/
theorem exists_placeAll? {words : List (Word × Word)} (image : Array Word)
    (hwords : ∀ word ∈ words, 0 ≤ word.1.toInt) :
    ∃ result, placeAll? image words = some result ∧
      result.size = max image.size ((words.map fun word => word.1.toNatClampNeg + 1).foldr max 0) ∧
      ∀ (ip : Word) (a : Nat), ip.address? = some a →
        result.getD a 0 = (lastCode? words ip).getD (image.getD a 0) := by
  -- The image so far is general: it counts for the cells that no later word is given for.
  induction words generalizing image with
  | nil => exact ⟨image, rfl, (Nat.max_zero _).symm, fun _ _ _ => rfl⟩
  | cons word words ih =>
    obtain ⟨ip, code⟩ := word
    have hip : 0 ≤ ip.toInt := hwords _ List.mem_cons_self
    have haddress : ip.address? = some ip.toNatClampNeg :=
      Word.address?_eq_some_iff.mpr (Int.toNat_of_nonneg hip).symm
    obtain ⟨result, hplaced, hsize, hcells⟩ :=
      ih (place image ip.toNatClampNeg code) fun word hword => hwords word (.tail _ hword)
    refine ⟨result, ?_, ?_, ?_⟩
    · rw [placeAll?, haddress]
      exact hplaced
    · rw [hsize, size_place, List.map_cons, List.foldr_cons, Nat.max_assoc]
    · intro other a ha
      have hsame : other = ip ↔ a = ip.toNatClampNeg := by
        have hvalue := Word.address?_eq_some_iff.mp ha
        have hvalue' := Word.address?_eq_some_iff.mp haddress
        rw [← Int64.toInt_inj]
        omega
      rw [hcells other a ha, getD_place, lastCode?_cons]
      cases lastCode? words other with
      | some found => rfl
      | none =>
        rw [Option.none_or, Option.getD_none]
        simp only [hsame]
        split <;> rfl

/-! ## All entries -/

variable {l : Listing}

/-- All words of a listing lie at addresses. -/
def Addressed (l : Listing) : Prop := ∀ e ∈ l.entries, e.Addressed

instance (l : Listing) : Decidable l.Addressed :=
  inferInstanceAs (Decidable (∀ e ∈ l.entries, e.Addressed))

/-- Each entry of a listing with addresses has addresses. -/
theorem Addressed.of_mem (h : l.Addressed) {e : Entry} (he : e ∈ l.entries.toList) :
    e.Addressed := h e (Array.mem_toList_iff.mp he)

/-- No address of a word is negative. -/
theorem Addressed.nonneg_of_mem (h : l.Addressed) {word : Word × Word} (hword : word ∈ l.located) :
    0 ≤ word.1.toInt := by
  obtain ⟨e, he, hword⟩ := List.mem_flatMap.mp hword
  obtain ⟨i, hcode, hip⟩ := (h.of_mem he).mem_located_iff.mp hword
  have hbounds := h.of_mem he i (List.getElem?_eq_some_iff.mp hcode).1
  omega

/-- The search finds the first entry with a word at an address, where entries that end at
the top are passed over. -/
theorem Addressed.find?_eq_some_iff (h : l.Addressed) {ip : Word} {e : Entry} {i : Int} :
    l.find? ip = some (e, i) ↔
      ∃ before after, l.entries.toList = before ++ e :: after ∧
        0 ≤ i ∧ i < e.codes.length ∧ e.ip.toInt + i = ip.toInt ∧ ¬ e.EndsAtTop ∧
        ∀ d ∈ before, d.HasWordAt ip → d.EndsAtTop := by
  have hpassed {before after : List Entry} (hsplit : l.entries.toList = before ++ e :: after) :
      (∀ d ∈ before, (!d.covers ip) = true) ↔ ∀ d ∈ before, d.HasWordAt ip → d.EndsAtTop := by
    refine forall₂_congr fun d hd => ?_
    have hmem : d ∈ l.entries.toList := hsplit ▸ List.mem_append_left _ hd
    rw [Bool.not_eq_true', Bool.eq_false_iff, ne_eq, (h.of_mem hmem).covers_iff, not_and,
      not_not]
  rw [find?, ← Array.find?_toList, Option.map_eq_some_iff]
  constructor
  · rintro ⟨found, hfound, heq⟩
    obtain ⟨hcovers, before, after, hsplit, hbefore⟩ := List.find?_eq_some_iff_append.mp hfound
    cases heq
    have he := h.of_mem (hsplit ▸ List.mem_append_right before List.mem_cons_self)
    obtain ⟨⟨k, hk, hip⟩, hnot⟩ := (he.covers_iff ip).mp hcovers
    have hindex := he.toInt_sub hk hip
    exact ⟨before, after, hsplit, by omega, by omega, by omega, hnot, (hpassed hsplit).mp hbefore⟩
  · rintro ⟨before, after, hsplit, hnonneg, hlt, hip, hnot, hbefore⟩
    have he := h.of_mem (hsplit ▸ List.mem_append_right before List.mem_cons_self)
    obtain ⟨k, rfl⟩ := Int.eq_ofNat_of_zero_le hnonneg
    have hk : k < e.codes.length := by omega
    refine ⟨e, List.find?_eq_some_iff_append.mpr ⟨?_, before, after, hsplit, ?_⟩, ?_⟩
    · exact (he.covers_iff ip).mpr ⟨⟨k, hk, hip⟩, hnot⟩
    · exact (hpassed hsplit).mpr hbefore
    · rw [he.toInt_sub hk hip]

/-- An entry with a word at an address is found, as long as it does not end at the top. -/
theorem Addressed.isSome_find?_iff (h : l.Addressed) {ip : Word} :
    (l.find? ip).isSome = true ↔ ∃ e ∈ l.entries, e.HasWordAt ip ∧ ¬ e.EndsAtTop := by
  rw [find?, Option.isSome_map, Array.find?_isSome]
  refine exists_congr fun e => and_congr_right fun he => ?_
  exact (h e he).covers_iff ip

/-- The place that is found holds a word that is located at the address. -/
theorem Addressed.exists_mem_of_find? (h : l.Addressed) {ip : Word} {e : Entry} {i : Nat}
    (hfind : l.find? ip = some (e, (i : Int))) :
    ∃ code, e.codes[i]? = some code ∧ (ip, code) ∈ l.located := by
  obtain ⟨before, after, hsplit, -, hlt, hip, -⟩ := h.find?_eq_some_iff.mp hfind
  have hmem : e ∈ l.entries.toList := hsplit ▸ List.mem_append_right before List.mem_cons_self
  have hcode : e.codes[i]? = some e.codes[i] := List.getElem?_eq_getElem (by omega)
  exact ⟨e.codes[i], hcode, List.mem_flatMap.mpr
    ⟨e, hmem, (h.of_mem hmem).mem_located_iff.mpr ⟨i, hcode, hip⟩⟩⟩

/-- The words of a listing are those of its entries. -/
theorem Addressed.exists_mem_located_iff (h : l.Addressed) {ip : Word} :
    (∃ code, (ip, code) ∈ l.located) ↔ ∃ e ∈ l.entries, e.HasWordAt ip := by
  constructor
  · rintro ⟨code, hword⟩
    obtain ⟨e, he, hword⟩ := List.mem_flatMap.mp hword
    exact ⟨e, Array.mem_toList_iff.mp he, (h.of_mem he).hasWordAt_iff.mpr ⟨code, hword⟩⟩
  · rintro ⟨e, he, hhas⟩
    obtain ⟨code, hword⟩ := (h e he).hasWordAt_iff.mp hhas
    exact ⟨code, List.mem_flatMap.mpr ⟨e, Array.mem_toList_iff.mpr he, hword⟩⟩

/-- The image of a listing reaches its furthest word, and each cell has the last word for
its address, or zero. -/
theorem Addressed.exists_image? (h : l.Addressed) :
    ∃ image, l.image? = some image ∧
      image.size = (l.located.map fun word => word.1.toNatClampNeg + 1).foldr max 0 ∧
      ∀ a < image.size, image[a]? = some ((lastCode? l.located (Int64.ofNat a)).getD 0) := by
  obtain ⟨image, hplaced, hsize, hcells⟩ := exists_placeAll? #[] fun _ => h.nonneg_of_mem
  rw [Array.size_empty, Nat.zero_max] at hsize
  refine ⟨image, hplaced, hsize, fun a ha => ?_⟩
  have hbound : image.size ≤ 2 ^ 63 := by
    rw [hsize]
    refine List.max_le_of_forall_le _ _ fun n hn => ?_
    obtain ⟨word, hword, rfl⟩ := List.mem_map.mp hn
    have hvalue := word.1.toInt_lt
    have hnat : word.1.toNatClampNeg = word.1.toInt.toNat := rfl
    omega
  have haddress : Word.address? (Int64.ofNat a) = some a :=
    Word.address?_eq_some_iff.mpr (Int64.toInt_ofNat_of_lt (by omega))
  have hcell := hcells (Int64.ofNat a) a haddress
  rw [Array.getD, dif_pos ha] at hcell
  rw [Array.getElem?_eq_getElem ha]
  exact congrArg some hcell

/-- A word that is given at an address lies in the image. -/
private theorem lt_foldr_of_mem {words : List (Word × Word)} {word : Word × Word}
    (hword : word ∈ words) :
    word.1.toNatClampNeg < (words.map fun word => word.1.toNatClampNeg + 1).foldr max 0 := by
  rw [Nat.lt_iff_add_one_le]
  exact List.le_max_of_le (List.mem_map.mpr ⟨word, hword, rfl⟩) (Nat.le_refl _)

/-- The views of a listing whose words all lie at addresses. The image ends behind the
furthest word and has in each cell the last word for its address, or zero. The search
gives the first entry with a word at an address and the place of that word, except that
it passes over entries that end at the largest address; wherever there is none of
these, it finds an entry exactly if a word is located there. If no address is given
twice, image and search give the same word. -/
theorem views_agree (l : Listing) (haddressed : l.Addressed) :
    (∃ image, l.image? = some image ∧
      image.size = (l.located.map fun word => word.1.toNatClampNeg + 1).foldr max 0 ∧
      (∀ a < image.size, image[a]? = some ((lastCode? l.located (Int64.ofNat a)).getD 0)) ∧
      ((l.located.map Prod.fst).Nodup → ∀ ip e (i : Nat), l.find? ip = some (e, (i : Int)) →
        ∃ code, image[ip.toNatClampNeg]? = some code ∧ e.codes[i]? = some code)) ∧
    (∀ ip e i, l.find? ip = some (e, i) ↔
      ∃ before after, l.entries.toList = before ++ e :: after ∧
        0 ≤ i ∧ i < e.codes.length ∧ e.ip.toInt + i = ip.toInt ∧ ¬ e.EndsAtTop ∧
        ∀ d ∈ before, d.HasWordAt ip → d.EndsAtTop) ∧
    ∀ ip, (∀ e ∈ l.entries, e.HasWordAt ip → ¬ e.EndsAtTop) →
      ((l.find? ip).isSome = true ↔ ∃ code, (ip, code) ∈ l.located) := by
  refine ⟨?_, fun ip e i => haddressed.find?_eq_some_iff, fun ip hbelow => ?_⟩
  · obtain ⟨image, himage, hsize, hcells⟩ := haddressed.exists_image?
    refine ⟨image, himage, hsize, hcells, fun hnodup ip e i hfind => ?_⟩
    obtain ⟨code, hcode, hword⟩ := haddressed.exists_mem_of_find? hfind
    have hself : Int64.ofNat ip.toNatClampNeg = ip := by
      have hnonneg := haddressed.nonneg_of_mem hword
      rw [← Int64.toInt_inj]
      exact (Int64.toInt_ofNat_of_lt ip.toNatClampNeg_lt).trans (Int.toNat_of_nonneg hnonneg)
    refine ⟨code, ?_, hcode⟩
    rw [hcells _ (hsize ▸ lt_foldr_of_mem hword), hself, lastCode?_of_nodup hnodup hword,
      Option.getD_some]
  · rw [haddressed.isSome_find?_iff, haddressed.exists_mem_located_iff]
    constructor
    · rintro ⟨e, he, hhas, -⟩
      exact ⟨e, he, hhas⟩
    · rintro ⟨e, he, hhas⟩
      exact ⟨e, he, hhas, hbelow e he hhas⟩

/-! ## Entries that overlap, and an entry at the top -/

namespace Overlapping

/-- An entry behind the others. -/
def halt : Entry := { line := 1, ip := 4, words := ["hlt"], terms := [⟨99, none⟩] }

/-- An entry at the beginning. -/
def output : Entry :=
  { line := 2, ip := 0, words := ["out", "#7"], terms := [⟨104, none⟩, ⟨7, none⟩] }

/-- An entry that overlaps it. -/
def data : Entry :=
  { line := 3, ip := 1, words := [".data", "8", "9"], terms := [⟨8, none⟩, ⟨9, none⟩] }

/-- Two entries have a word at address 1, and none has one at address 3. -/
def listing : Listing := ⟨#[halt, output, data]⟩

/-- The entries before the overlap. -/
def apart : Listing := ⟨#[halt, output]⟩

/-- At address 1 the image has the word of the last entry, and the search finds the first
one. Without the overlap both give the word of the first entry. -/
theorem views_agree_overlapping :
    (listing.Addressed ∧
      (∃ image, listing.image? = some image ∧
        image.size = 5 ∧ image[1]? = some 8 ∧ image[3]? = some 0) ∧
      listing.find? 1 = some (output, 1) ∧ (listing.find? 3).isSome = false) ∧
    apart.Addressed ∧ (apart.located.map Prod.fst).Nodup ∧
      apart.find? 1 = some (output, 1) ∧
      ∃ image, apart.image? = some image ∧ image[1]? = output.codes[1]? := by
  constructor
  · have haddressed : listing.Addressed := by decide
    obtain ⟨⟨image, himage, hsize, hcells, -⟩, hfind, hfound⟩ := views_agree listing haddressed
    have hsize : image.size = 5 := hsize
    have hlast : lastCode? listing.located 1 = some 8 := by decide
    have hgap : lastCode? listing.located 3 = none := by decide
    have hunused : (3 : Word) ∉ listing.located.map Prod.fst := by decide
    refine ⟨haddressed, ⟨image, himage, hsize, ?_, ?_⟩, ?_, ?_⟩
    · exact (hcells 1 (by omega)).trans (congrArg (some <| ·.getD 0) hlast)
    · exact (hcells 3 (by omega)).trans (congrArg (some <| ·.getD 0) hgap)
    · exact (hfind 1 output 1).mpr ⟨[halt], [data], rfl, by decide⟩
    · rw [Bool.eq_false_iff, ne_eq, hfound 3 (by decide)]
      rintro ⟨code, hword⟩
      exact hunused (List.mem_map.mpr ⟨(3, code), hword, rfl⟩)
  · have haddressed : apart.Addressed := by decide
    have hnodup : (apart.located.map Prod.fst).Nodup := by decide
    obtain ⟨⟨image, himage, -, -, hagree⟩, hfind, -⟩ := views_agree apart haddressed
    have hfound : apart.find? 1 = some (output, 1) :=
      (hfind 1 output 1).mpr ⟨[halt], [], rfl, by decide⟩
    obtain ⟨code, hcell, hcode⟩ := hagree hnodup 1 output 1 hfound
    exact ⟨haddressed, hnodup, hfound, image, himage, hcell.trans hcode.symm⟩

end Overlapping

namespace TopWord

/-- One word at the largest address. -/
def listing : Listing :=
  ⟨#[{ line := 1, ip := Int64.maxValue, words := [".data", "5"], terms := [⟨5, none⟩] }]⟩

/-- The word at the largest address is located there, but its entry is not found. -/
theorem top_word_not_found :
    listing.Addressed ∧ (Int64.maxValue, 5) ∈ listing.located ∧
      listing.find? Int64.maxValue = none := by
  decide

end TopWord

end Listing

end TapeMachine
