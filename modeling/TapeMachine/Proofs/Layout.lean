import Mathlib.Data.List.Chain
import Mathlib.Data.List.Induction
import TapeMachine.Listing
import TapeMachine.Proofs.Address

/-!
# Contiguous listings

The entries of a listing are contiguous if they start at address zero and each one
begins where the one before it ends. Then the address of an entry is the number of
words before it. As long as this number is an address, the image of the listing is
made of all words in their order, and each of its addresses belongs to exactly one
entry.
-/

namespace TapeMachine

namespace Entry

/-- An entry has as many words as terms. -/
@[simp]
theorem length_codes (e : Entry) : e.codes.length = e.terms.length := List.length_map _

/-- An entry links its own words only. -/
theorem lt_length_of_mem_links {e : Entry} {link : Nat × String} (hlink : link ∈ e.links) :
    link.1 < e.codes.length := by
  obtain ⟨⟨t, i⟩, hterm, hlabel⟩ := List.mem_filterMap.mp hlink
  obtain ⟨label, _, rfl⟩ := Option.map_eq_some_iff.mp hlabel
  have hi := (List.mem_zipIdx' hterm).1
  simpa using hi

/-- What two entries share that differ in the values of their words only. -/
structure SameLayout (d e : Entry) : Prop where
  ip : e.ip = d.ip
  labels : e.terms.map Term.label = d.terms.map Term.label

/-- Entries of one layout have equally many words. -/
theorem SameLayout.length_codes {d e : Entry} (h : SameLayout d e) :
    e.codes.length = d.codes.length := by
  have hlength := congrArg List.length h.labels
  simpa using hlength

end Entry

namespace Listing

/-- The words of entries, one entry after the other. -/
def codesOf (entries : List Entry) : List Word := entries.flatMap Entry.codes

/-- The words of entries are those of the first and of the others. -/
@[simp]
theorem codesOf_cons (e : Entry) (entries : List Entry) :
    codesOf (e :: entries) = e.codes ++ codesOf entries := List.flatMap_cons

/-- The words of entries are put together in their order. -/
@[simp]
theorem codesOf_append (first second : List Entry) :
    codesOf (first ++ second) = codesOf first ++ codesOf second := List.flatMap_append

/-- Entries that lie one behind the other from address zero on. -/
structure Contiguous (entries : List Entry) : Prop where
  first : ∀ e, entries.head? = some e → e.ip = 0
  chain : entries.IsChain fun d e => e.ip = d.ip + Int64.ofNat d.codes.length
  codes : ∀ e ∈ entries, e.codes ≠ []
  links : ∀ e ∈ entries, ∀ link ∈ e.links, link.1 < e.codes.length

/-- No entries follow each other. -/
theorem contiguous_nil : Contiguous [] where
  first e he := by cases he
  chain := .nil
  codes e he := by cases he
  links e he := by cases he

namespace Contiguous

/-- The address of an entry is the number of words before it. -/
theorem ip_eq {before after : List Entry} {e : Entry}
    (h : Contiguous (before ++ e :: after)) : e.ip = Int64.ofNat (codesOf before).length := by
  -- The entry before `e` says where `e` begins, so it is split off from the right.
  induction before using List.reverseRecOn generalizing e after with
  | nil => exact h.first e rfl
  | append_singleton before d ih =>
    rw [List.append_assoc, List.singleton_append] at h
    have hstep : e.ip = d.ip + Int64.ofNat d.codes.length :=
      (List.isChain_append_cons_cons.mp h.chain).2.1
    rw [hstep, ih h, ← Int64.ofNat_add, codesOf_append, List.length_append]
    simp [codesOf]

/-- The address behind the last entry is the number of all words. -/
theorem next_eq {before : List Entry} {e : Entry} (h : Contiguous (before ++ [e])) :
    e.next = Int64.ofNat (codesOf (before ++ [e])).length := by
  rw [Entry.next, h.ip_eq, ← Int64.ofNat_add, codesOf_append, List.length_append]
  simp [codesOf]

/-- An entry with words may follow at the address behind the last one. -/
theorem push {entries : List Entry} {e : Entry} (h : Contiguous entries)
    (hip : e.ip = Int64.ofNat (codesOf entries).length) (hcodes : e.codes ≠ []) :
    Contiguous (entries ++ [e]) where
  first d hd := by
    cases entries with
    | nil =>
      obtain rfl := Option.some.inj hd
      exact hip
    | cons c rest => exact h.first d hd
  chain := by
    refine List.isChain_append.mpr ⟨h.chain, .singleton e, ?_⟩
    intro d hd c hc
    obtain rfl := Option.some.inj hc
    obtain ⟨before, rfl⟩ := List.getLast?_eq_some_iff.mp hd
    rw [hip, ← h.next_eq, Entry.next, Entry.length_codes]
  codes d hd := by
    rcases List.mem_append.mp hd with hd | hd
    · exact h.codes d hd
    · rwa [List.mem_singleton.mp hd]
  links d hd link hlink := Entry.lt_length_of_mem_links hlink

/-- Entries of one layout follow each other on both sides or on neither. -/
private theorem chain_of_sameLayout {entries others : List Entry}
    (hsame : List.Forall₂ Entry.SameLayout entries others)
    (hchain : entries.IsChain fun d e => e.ip = d.ip + Int64.ofNat d.codes.length) :
    others.IsChain fun d e => e.ip = d.ip + Int64.ofNat d.codes.length := by
  induction hsame with
  | nil => exact .nil
  | cons hd htail ih =>
    cases htail with
    | nil => exact .singleton _
    | cons hc _ =>
      obtain ⟨hstep, hrest⟩ := List.isChain_cons_cons.mp hchain
      refine .cons_cons ?_ (ih hrest)
      rw [hc.ip, hd.ip, hd.length_codes, hstep]

/-- Entries stay contiguous when their words get other values. -/
theorem of_sameLayout {entries others : List Entry} (h : Contiguous entries)
    (hsame : List.Forall₂ Entry.SameLayout entries others) : Contiguous others where
  first e he := by
    cases hsame with
    | nil => cases he
    | cons hd _ =>
      obtain rfl := Option.some.inj he
      rw [hd.ip]
      exact h.first _ rfl
  chain := chain_of_sameLayout hsame h.chain
  codes e he := by
    obtain ⟨i, hi, rfl⟩ := List.getElem_of_mem he
    have hi' : i < entries.length := hsame.length_eq ▸ hi
    have hlength := (hsame.get hi' hi).length_codes
    have hcodes := h.codes _ (List.getElem_mem hi')
    intro hnil
    apply hcodes
    rw [← List.length_eq_zero_iff]
    simpa [hnil] using hlength.symm
  links e he link hlink := Entry.lt_length_of_mem_links hlink

end Contiguous

/-! ## The image -/

/-- The words of an entry with their addresses, which are counted from zero. -/
theorem located_entry {e : Entry} {n : Nat} (hip : e.ip = Int64.ofNat n) :
    e.located = (e.codes.zipIdx n).map fun code => (Int64.ofNat code.2, code.1) := by
  have hshift := List.map_snd_add_zipIdx_eq_zipIdx (l := e.codes) (n := n) (k := 0)
  rw [Nat.add_zero] at hshift
  rw [Entry.located, ← hshift, List.map_map, hip]
  apply List.map_congr_left
  rintro ⟨code, i⟩ _
  simp [Int64.ofNat_add, Int64.add_comm]

/-- The words of the last entries stand behind those of the first ones. -/
private theorem located_after (before : List Entry) {after : List Entry}
    (h : Contiguous (before ++ after)) :
    after.flatMap Entry.located =
      ((codesOf after).zipIdx (codesOf before).length).map fun code =>
        (Int64.ofNat code.2, code.1) := by
  induction after generalizing before with
  | nil => rfl
  | cons e after ih =>
    have hrest := ih (before ++ [e]) (by simpa using h)
    rw [List.flatMap_cons, located_entry h.ip_eq, hrest, codesOf_cons, List.zipIdx_append,
      List.map_append, codesOf_append, List.length_append]
    simp [codesOf]

/-- In a contiguous listing words are located in their order. -/
theorem located_of_contiguous {l : Listing} (h : Contiguous l.entries.toList) :
    l.located = (codesOf l.entries.toList).zipIdx.map fun code => (Int64.ofNat code.2, code.1) :=
  located_after [] h

/-- A word behind the image is put at its end. -/
private theorem place_size (image : Array Word) (code : Word) :
    place image image.size code = image.push code := by
  unfold place
  rw [if_neg (Nat.lt_irrefl _), Nat.add_sub_cancel_left, ← Array.toList_inj]
  simp

/-- Words that follow an image are added to it. -/
theorem placeAll?_zipIdx (codes : List Word) (image : Array Word)
    (hsize : image.size + codes.length ≤ 2 ^ 63) :
    placeAll? image ((codes.zipIdx image.size).map fun code => (Int64.ofNat code.2, code.1)) =
      some (image ++ codes.toArray) := by
  induction codes generalizing image with
  | nil => simp [placeAll?]
  | cons code codes ih =>
    rw [List.length_cons] at hsize
    have haddress : Word.address? (Int64.ofNat image.size) = some image.size :=
      Word.address?_eq_some_iff.mpr (Int64.toInt_ofNat_of_lt (by omega))
    have hrest := ih (image.push code) (by rw [Array.size_push]; omega)
    rw [Array.size_push] at hrest
    simp only [List.zipIdx_cons, List.map_cons, placeAll?, haddress, place_size]
    rw [hrest]
    simp

/-- The image of a contiguous listing is made of its words in order. -/
theorem image?_of_contiguous {l : Listing} (h : Contiguous l.entries.toList)
    (hsize : (codesOf l.entries.toList).length ≤ 2 ^ 63) :
    l.image? = some (codesOf l.entries.toList).toArray := by
  have hplaced := placeAll?_zipIdx (codesOf l.entries.toList) #[] (by simpa using hsize)
  rw [image?, located_of_contiguous h]
  simpa using hplaced

/-! ## The entry at an address -/

/-- The place of an address in contiguous words: an entry, and an index in it. -/
theorem exists_entry_of_lt {entries : List Entry} {a : Nat} (ha : a < (codesOf entries).length) :
    ∃ before e after i, entries = before ++ e :: after ∧ i < e.codes.length ∧
      a = (codesOf before).length + i := by
  induction entries generalizing a with
  | nil => cases ha
  | cons e entries ih =>
    by_cases hfirst : a < e.codes.length
    · exact ⟨[], e, entries, a, rfl, hfirst, (Nat.zero_add a).symm⟩
    · rw [codesOf_cons, List.length_append] at ha
      obtain ⟨before, d, after, i, rfl, hi, hplace⟩ := ih (a := a - e.codes.length) (by omega)
      refine ⟨e :: before, d, after, i, rfl, hi, ?_⟩
      rw [codesOf_cons, List.length_append]
      omega

namespace Contiguous

variable {before after : List Entry} {e : Entry}

/-- Where an entry begins and ends, as long as all addresses are words. -/
theorem toInt_ip (h : Contiguous (before ++ e :: after))
    (hsize : (codesOf (before ++ e :: after)).length < 2 ^ 63) :
    e.ip.toInt = (codesOf before).length ∧
      e.next.toInt = (codesOf before).length + e.codes.length := by
  simp only [codesOf_append, codesOf_cons, List.length_append] at hsize
  constructor
  · rw [h.ip_eq, Int64.toInt_ofNat_of_lt (by omega)]
  · rw [Entry.next, h.ip_eq, ← Int64.ofNat_add, ← Entry.length_codes,
      Int64.toInt_ofNat_of_lt (by omega)]
    omega

/-- An entry covers the addresses of its own words. -/
theorem covers_iff (h : Contiguous (before ++ e :: after))
    (hsize : (codesOf (before ++ e :: after)).length < 2 ^ 63) (ip : Word) :
    e.covers ip = true ↔
      (codesOf before).length ≤ ip.toInt ∧ ip.toInt < (codesOf before).length + e.codes.length := by
  obtain ⟨hip, hnext⟩ := h.toInt_ip hsize
  rw [Entry.covers, Bool.and_eq_true, decide_eq_true_eq, decide_eq_true_eq, Int64.le_iff_toInt_le,
    Int64.lt_iff_toInt_lt, hip, hnext]

/-- The entry at an address is the one that has a word there. -/
theorem find?_eq (h : Contiguous (before ++ e :: after))
    (hsize : (codesOf (before ++ e :: after)).length < 2 ^ 63) {i : Nat} (hi : i < e.codes.length) :
    find? ⟨(before ++ e :: after).toArray⟩ (Int64.ofNat ((codesOf before).length + i)) =
      some (e, (i : Int)) := by
  have hlt : (codesOf before).length + i < 2 ^ 63 := by
    simp only [codesOf_append, codesOf_cons, List.length_append] at hsize
    omega
  have haddress := Int64.toInt_ofNat_of_lt hlt
  have hfind : (before ++ e :: after).find?
      (·.covers (Int64.ofNat ((codesOf before).length + i))) = some e := by
    refine List.find?_eq_some_iff_append.mpr ⟨?_, before, after, rfl, ?_⟩
    · rw [h.covers_iff hsize, haddress]
      omega
    · intro d hd
      obtain ⟨first, second, rfl⟩ := List.append_of_mem hd
      rw [List.append_assoc, List.cons_append] at h hsize
      rw [Bool.not_eq_true', Bool.eq_false_iff, ne_eq, h.covers_iff hsize, haddress]
      simp only [codesOf_append, codesOf_cons, List.length_append]
      omega
  have hindex : (Int64.ofNat ((codesOf before).length + i) - e.ip).toInt = i := by
    rw [h.ip_eq, Int64.ofNat_add, Int64.add_comm, Int64.add_sub_cancel]
    exact Int64.toInt_ofNat_of_lt (by omega)
  rw [find?, ← Array.find?_toList]
  simp only [hfind, Option.map_some, hindex]

end Contiguous

variable {l : Listing}

/-- An address of a contiguous listing belongs to one entry, and is found there. -/
theorem find?_of_lt (h : Contiguous l.entries.toList)
    (hsize : (codesOf l.entries.toList).length < 2 ^ 63) {a : Nat}
    (ha : a < (codesOf l.entries.toList).length) :
    ∃ e ∈ l.entries, ∃ i : Nat, l.find? (Int64.ofNat a) = some (e, (i : Int)) ∧
      i < e.codes.length ∧ e.codes[i]? = (codesOf l.entries.toList)[a]? ∧
      ∀ d ∈ l.entries, d.ip.toInt ≤ a → a < d.ip.toInt + d.codes.length → d = e := by
  obtain ⟨⟨entries⟩⟩ := l
  obtain ⟨before, e, after, i, rfl, hi, rfl⟩ := exists_entry_of_lt ha
  have hfind := Contiguous.find?_eq h hsize hi
  refine ⟨e, by simp, i, hfind, hi, ?_, ?_⟩
  · rw [codesOf_append, codesOf_cons, List.getElem?_append_right (Nat.le_add_right _ _),
      Nat.add_sub_cancel_left, List.getElem?_append_left hi]
  · -- Another entry that holds the address would be found there as well.
    intro d hd hle hlt
    obtain ⟨first, second, heq⟩ := List.append_of_mem (Array.mem_toList_iff.mpr hd)
    dsimp only at heq
    rw [heq] at h hsize hfind
    obtain ⟨hip, _⟩ := h.toInt_ip hsize
    obtain ⟨j, hj⟩ : ∃ j, (codesOf before).length + i = (codesOf first).length + j :=
      ⟨(codesOf before).length + i - (codesOf first).length, by omega⟩
    have hother := h.find?_eq hsize (i := j) (by omega)
    rw [← hj, hfind] at hother
    exact (congrArg Prod.fst (Option.some.inj hother)).symm

/-- Nothing is found at any other address. -/
theorem find?_of_outside (h : Contiguous l.entries.toList)
    (hsize : (codesOf l.entries.toList).length < 2 ^ 63) {ip : Word}
    (hip : ip.toInt < 0 ∨ (codesOf l.entries.toList).length ≤ ip.toInt) : l.find? ip = none := by
  obtain ⟨⟨entries⟩⟩ := l
  dsimp only at h hsize hip
  rw [find?, ← Array.find?_toList, Option.map_eq_none_iff, List.find?_eq_none]
  intro e he
  obtain ⟨before, after, rfl⟩ := List.append_of_mem he
  rw [h.covers_iff hsize]
  simp only [codesOf_append, codesOf_cons, List.length_append] at hip
  omega

end Listing

end TapeMachine
