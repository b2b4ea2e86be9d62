import TapeMachine.Assembler
import TapeMachine.Proofs.Layout
import TapeMachine.Proofs.Outcome

/-!
# Links in any order

Linking adds the address of its label to every word that has one. The order in which the
links of an entry are taken is not decided by the assembler, so every statement here is for
any order. Whether linking succeeds, and with which words, does not depend on it. Where a
label is missing, the order decides which words of the first entry with such a label have
got their addresses by then, and which one is named if this entry lacks several labels.
-/

namespace TapeMachine

/-! ## What linking does to a word -/

/-- A word, and what it is with the address of its label. -/
inductive Term.Linked (labels : Table Word) : Term → Term → Prop where
  | plain (value : Word) : Linked labels ⟨value, none⟩ ⟨value, none⟩
  | label {name : String} {address : Word} (haddress : labels[name]? = some address)
    (value : Word) : Linked labels ⟨value, some name⟩ ⟨value + address, some name⟩

/-- A word, and what it may be where linking fails. -/
def Term.Partly (labels : Table Word) (t u : Term) : Prop := u = t ∨ Term.Linked labels t u

/-- Two words that only differ by the address of a label that is known. -/
structure Term.Alike (labels : Table Word) (t u : Term) : Prop where
  label : t.label = u.label
  value : t.value = u.value ∨
    ∃ name address, t.label = some name ∧ labels[name]? = some address ∧
      (t.value = u.value + address ∨ u.value = t.value + address)

namespace Term

variable {labels : Table Word} {t u v : Term}

/-- A word is linked in one way. -/
theorem rightUnique_linked (labels : Table Word) : Relator.RightUnique (Linked labels) := by
  intro t u v hu hv
  cases hu with
  | plain value =>
    cases hv
    rfl
  | label haddress value =>
    cases hv with
    | label haddress' _ =>
      rw [haddress] at haddress'
      rw [Option.some.inj haddress']

/-- A word can be linked if its label is known. -/
theorem exists_linked_iff :
    (∃ u, Linked labels t u) ↔
      ∀ name, t.label = some name → ∃ address, labels[name]? = some address := by
  obtain ⟨value, label⟩ := t
  cases label with
  | none =>
    constructor
    · intro _ name hname
      cases hname
    · intro _
      exact ⟨_, .plain value⟩
  | some name =>
    constructor
    · rintro ⟨u, hu⟩ other hother
      obtain rfl : name = other := Option.some.inj hother
      cases hu with
      | label haddress _ => exact ⟨_, haddress⟩
    · intro hknown
      obtain ⟨address, haddress⟩ := hknown name rfl
      exact ⟨_, .label haddress value⟩

/-- Linking keeps the label of a word. -/
theorem Linked.label_eq (h : Linked labels t u) : u.label = t.label := by
  cases h with
  | plain value => rfl
  | label haddress value => rfl

/-- Linking keeps the label of a term. -/
theorem Partly.label_eq (h : Partly labels t u) : u.label = t.label := by
  rcases h with rfl | h
  · rfl
  · exact h.label_eq

end Term

/-! ## What linking does to an entry -/

namespace Entry

/-- An entry links the words that have a label. -/
theorem mem_links_iff {e : Entry} {i : Nat} {name : String} :
    (i, name) ∈ e.links ↔ ∃ t, e.terms[i]? = some t ∧ t.label = some name := by
  simp [links, List.mem_filterMap, List.mem_zipIdx_iff_getElem?]

/-- No word is linked twice. -/
theorem nodup_links (e : Entry) : (e.links.map Prod.fst).Nodup := by
  have hplaces : (e.terms.zipIdx.map Prod.snd).Nodup := by
    rw [List.zipIdx_map_snd]
    exact List.nodup_range'
  unfold links
  rw [List.Nodup, List.pairwise_map, List.pairwise_filterMap]
  refine (List.pairwise_map.mp hplaces).imp ?_
  intro s t hne link hlink link' hlink'
  obtain ⟨_, _, rfl⟩ := Option.map_eq_some_iff.mp hlink
  obtain ⟨_, _, rfl⟩ := Option.map_eq_some_iff.mp hlink'
  exact hne

/-- An entry, and another one with its terms related to those of the first. -/
def TermsBy (R : Term → Term → Prop) (d e : Entry) : Prop :=
  ∃ terms, List.Forall₂ R d.terms terms ∧ e = { d with terms }

/-- An entry, and what it is with the addresses of its labels. -/
def Linked (labels : Table Word) : Entry → Entry → Prop := TermsBy (Term.Linked labels)

/-- An entry, and what it may be where linking fails. -/
def Partly (labels : Table Word) : Entry → Entry → Prop := TermsBy (Term.Partly labels)

/-- Two entries that only differ by addresses of labels that are known. -/
def Alike (labels : Table Word) : Entry → Entry → Prop := TermsBy (Term.Alike labels)

variable {labels : Table Word} {d e f : Entry}

/-- There is only one way to link an entry. -/
theorem rightUnique_linked (labels : Table Word) : Relator.RightUnique (Linked labels) := by
  intro d e f he hf
  obtain ⟨terms, hterms, rfl⟩ := he
  obtain ⟨terms', hterms', rfl⟩ := hf
  rw [(Term.rightUnique_linked labels).forall₂ hterms hterms']

/-- An entry can be linked if all its labels are known. -/
theorem exists_linked_iff :
    (∃ e, Linked labels d e) ↔
      ∀ i name, (i, name) ∈ d.links → ∃ address, labels[name]? = some address := by
  have hterms : (∃ e, Linked labels d e) ↔ ∀ t ∈ d.terms, ∃ u, Term.Linked labels t u := by
    constructor
    · rintro ⟨e, terms, hterms, rfl⟩ t ht
      obtain ⟨u, _, hu⟩ := Outcome.exists_mem_of_forall₂ hterms ht
      exact ⟨u, hu⟩
    · intro hall
      choose! link hlink using hall
      refine ⟨_, d.terms.map link, ?_, rfl⟩
      rw [List.forall₂_map_right_iff, List.forall₂_same]
      exact hlink
  rw [hterms]
  constructor
  · intro hall i name hmem
    obtain ⟨t, ht, hname⟩ := mem_links_iff.mp hmem
    exact Term.exists_linked_iff.mp (hall t (List.mem_of_getElem? ht)) name hname
  · intro hall t ht
    obtain ⟨i, hi⟩ := List.getElem?_of_mem ht
    exact Term.exists_linked_iff.mpr fun name hname =>
      hall i name (mem_links_iff.mpr ⟨t, hi, hname⟩)

/-- An entry that lacks a label cannot be linked. -/
theorem not_exists_linked {i : Nat} {name : String} (hname : labels[name]? = none)
    (hmem : (i, name) ∈ d.links) : ¬ ∃ e, Linked labels d e := by
  intro hlinked
  obtain ⟨address, haddress⟩ := exists_linked_iff.mp hlinked i name hmem
  rw [hname] at haddress
  cases haddress

/-- Linking changes the values of words only. -/
theorem Partly.sameLayout (h : Partly labels d e) : SameLayout d e := by
  obtain ⟨terms, hterms, rfl⟩ := h
  exact ⟨rfl, Outcome.map_eq_of_forall₂ hterms fun _ _ => Term.Partly.label_eq⟩

/-- Linking keeps the labels that words refer to. -/
theorem Partly.mem_links_iff (h : Partly labels d e) {i : Nat} {name : String} :
    (i, name) ∈ e.links ↔ (i, name) ∈ d.links := by
  have hlabel (f : Entry) : (i, name) ∈ f.links ↔
      (f.terms.map Term.label)[i]? = some (some name) := by
    rw [Entry.mem_links_iff, List.getElem?_map, Option.map_eq_some_iff]
  rw [hlabel, hlabel, h.sameLayout.labels]

/-- A linked entry is partly linked. -/
theorem Linked.partly (h : Linked labels d e) : Partly labels d e := by
  obtain ⟨terms, hterms, rfl⟩ := h
  exact ⟨terms, hterms.imp fun _ _ => .inr, rfl⟩

/-- A linked entry has the layout of the one that it was. -/
theorem Linked.sameLayout (h : Linked labels d e) : SameLayout d e := h.partly.sameLayout

end Entry

namespace Assembler

/-! ## One entry -/

/-- Addresses are added to words, one link after the other. -/
inductive Added (labels : Table Word) : List (Nat × String) → Array Term → Array Term → Prop where
  | nil (terms : Array Term) : Added labels [] terms terms
  | cons {place : Nat} {name : String} {links : List (Nat × String)} {address : Word}
    {terms linked : Array Term} (haddress : labels[name]? = some address)
    (hrest : Added labels links
      (terms.modify place fun t => { t with value := t.value + address }) linked) :
    Added labels ((place, name) :: links) terms linked

/-- Addresses are added up to the first link whose label is missing. -/
theorem linkTerms_cases (labels : Table Word) (links : List (Nat × String)) (terms : Array Term) :
    (∃ linked, linkTerms labels links terms = .ok () linked ∧ Added labels links terms linked) ∨
      ∃ front place name rest linked, links = front ++ (place, name) :: rest ∧
        labels[name]? = none ∧
        linkTerms labels links terms = .error (.labelMissing name) linked ∧
        Added labels front terms linked := by
  induction links generalizing terms with
  | nil => exact .inl ⟨terms, rfl, .nil terms⟩
  | cons link links ih =>
    obtain ⟨place, name⟩ := link
    cases haddress : labels[name]? with
    | none =>
      have hlink : linkAt labels place name terms = .error (.labelMissing name) terms := by
        rw [linkAt, haddress]
      refine .inr ⟨[], place, name, links, terms, rfl, haddress, ?_, .nil terms⟩
      exact Outcome.bind_of_error hlink
    | some address =>
      have hlink : linkAt labels place name terms =
          .ok () (terms.modify place fun t => { t with value := t.value + address }) := by
        rw [linkAt, haddress]
      have hstep : linkTerms labels ((place, name) :: links) terms = linkTerms labels links
          (terms.modify place fun t => { t with value := t.value + address }) :=
        Outcome.bind_of_ok hlink
      rw [hstep]
      rcases ih (terms.modify place fun t => { t with value := t.value + address }) with
        ⟨linked, hok, hadded⟩ | ⟨front, place', name', rest, linked, rfl, hnone, herror, hadded⟩
      · exact .inl ⟨linked, hok, .cons haddress hadded⟩
      · exact .inr ⟨(place, name) :: front, place', name', rest, linked, rfl, hnone, herror,
          .cons haddress hadded⟩

/-- Links at different places do not get in each other's way. -/
theorem Added.getElem? {labels : Table Word} {links : List (Nat × String)}
    {terms linked : Array Term} (h : Added labels links terms linked)
    (hnodup : (links.map Prod.fst).Nodup) (i : Nat) :
    (i ∉ links.map Prod.fst → linked[i]? = terms[i]?) ∧
      ∀ name, (i, name) ∈ links → ∃ address, labels[name]? = some address ∧
        linked[i]? = terms[i]?.map fun t => { t with value := t.value + address } := by
  induction h with
  | nil terms => exact ⟨fun _ => rfl, fun name hmem => by cases hmem⟩
  | @cons place name links address terms linked haddress _ ih =>
    rw [List.map_cons, List.nodup_cons] at hnodup
    obtain ⟨hkept, hadded⟩ := ih hnodup.2
    rw [Array.getElem?_modify] at hkept hadded
    constructor
    · intro hi
      rw [List.map_cons, List.mem_cons, not_or] at hi
      rw [hkept hi.2, if_neg (Ne.symm hi.1)]
    · intro other hmem
      rcases List.mem_cons.mp hmem with hfirst | hrest
      · obtain ⟨rfl, rfl⟩ := Prod.mk.inj hfirst
        refine ⟨address, haddress, ?_⟩
        rw [hkept hnodup.1, if_pos rfl]
      · have hne : place ≠ i := by
          rintro rfl
          exact hnodup.1 (List.mem_map.mpr ⟨_, hrest, rfl⟩)
        rw [if_neg hne] at hadded
        exact hadded other hrest

/-- No word comes or goes. -/
theorem Added.size_eq {labels : Table Word} {links : List (Nat × String)}
    {terms linked : Array Term} (h : Added labels links terms linked) :
    linked.size = terms.size := by
  induction h with
  | nil terms => rfl
  | cons _ _ ih => rw [ih, Array.size_modify]

/-- A word of an entry is linked if its place is among those of the links that are taken, and
stays as it is otherwise. -/
theorem Added.term {labels : Table Word} {links : List (Nat × String)} {d : Entry}
    {linked : Array Term} (h : Added labels links d.terms.toArray linked)
    (hnodup : (links.map Prod.fst).Nodup) (hlinks : ∀ link ∈ links, link ∈ d.links) {i : Nat}
    {t u : Term} (ht : d.terms[i]? = some t) (hu : linked.toList[i]? = some u) :
    i ∈ links.map Prod.fst ∧ Term.Linked labels t u ∨ i ∉ links.map Prod.fst ∧ u = t := by
  obtain ⟨hkept, hadded⟩ := h.getElem? hnodup i
  have hterm : d.terms.toArray[i]? = some t := by rwa [List.getElem?_toArray]
  rw [Array.getElem?_toList] at hu
  rw [hu, hterm] at hkept hadded
  by_cases hi : i ∈ links.map Prod.fst
  · obtain ⟨⟨i, name⟩, hmem, rfl⟩ := List.mem_map.mp hi
    obtain ⟨t', ht', hname⟩ := Entry.mem_links_iff.mp (hlinks _ hmem)
    obtain ⟨address, haddress, hlinked⟩ := hadded name hmem
    obtain rfl : t = t' := Option.some.inj (ht.symm.trans ht')
    obtain ⟨value, label⟩ := t
    obtain rfl : label = some name := hname
    obtain rfl := Option.some.inj hlinked
    exact .inl ⟨hi, .label haddress value⟩
  · exact .inr ⟨hi, Option.some.inj (hkept hi)⟩

/-- With some of its links taken, an entry is partly linked. -/
theorem Added.partly {labels : Table Word} {links : List (Nat × String)} {d : Entry}
    {linked : Array Term} (h : Added labels links d.terms.toArray linked)
    (hnodup : (links.map Prod.fst).Nodup) (hlinks : ∀ link ∈ links, link ∈ d.links) :
    Entry.Partly labels d { d with terms := linked.toList } := by
  refine ⟨linked.toList, Outcome.forall₂_of_getElem? h.size_eq.symm ?_, rfl⟩
  intro i t u ht hu
  rcases h.term hnodup hlinks ht hu with ⟨_, hlinked⟩ | ⟨_, hsame⟩
  · exact .inr hlinked
  · exact .inl hsame

/-- With all of its links taken, an entry is linked. -/
theorem Added.linked {labels : Table Word} {links : List (Nat × String)} {d : Entry}
    {linked : Array Term} (h : Added labels links d.terms.toArray linked)
    (hperm : links.Perm d.links) : Entry.Linked labels d { d with terms := linked.toList } := by
  have hnodup : (links.map Prod.fst).Nodup := (hperm.map Prod.fst).nodup_iff.mpr d.nodup_links
  refine ⟨linked.toList, Outcome.forall₂_of_getElem? h.size_eq.symm ?_, rfl⟩
  intro i t u ht hu
  rcases h.term hnodup (fun _ => hperm.mem_iff.mp) ht hu with ⟨_, hlinked⟩ | ⟨hi, rfl⟩
  · exact hlinked
  · -- A word that is not linked has no label.
    obtain ⟨value, label⟩ := u
    cases label with
    | none => exact .plain value
    | some name =>
      have hmem := hperm.mem_iff.mpr (Entry.mem_links_iff.mpr ⟨_, ht, rfl⟩)
      exact absurd (List.mem_map.mpr ⟨_, hmem, rfl⟩) hi

/-- An entry is linked, or lacks a label. In the latter case it is partly linked. -/
theorem linkEntry_cases (order : LinkOrder) (labels : Table Word) (place : Nat) (d : Entry) :
    (∃ e, linkEntry order labels place d = .ok () e ∧ Entry.Linked labels d e) ∨
      ∃ name e, linkEntry order labels place d = .error (.labelMissing name) e ∧
        Entry.Partly labels d e ∧ labels[name]? = none ∧ ∃ i, (i, name) ∈ d.links := by
  have hperm := order.perm place d.links
  unfold linkEntry
  rcases linkTerms_cases labels (order.arrange place d.links) d.terms.toArray with
    ⟨linked, hok, hadded⟩ | ⟨front, i, name, rest, linked, hlinks, hnone, herror, hadded⟩
  · rw [hok]
    exact .inl ⟨_, rfl, hadded.linked hperm⟩
  · have hfront : ∀ link ∈ front, link ∈ d.links := fun link hlink =>
      hperm.mem_iff.mp (hlinks ▸ List.mem_append_left _ hlink)
    have hnodup : (front.map Prod.fst).Nodup := by
      have hall := (hperm.map Prod.fst).nodup_iff.mpr d.nodup_links
      rw [hlinks, List.map_append] at hall
      exact (List.nodup_append.mp hall).1
    have hmem : (i, name) ∈ d.links :=
      hperm.mem_iff.mp (hlinks ▸ List.mem_append_right front List.mem_cons_self)
    rw [herror]
    exact .inr ⟨name, _, rfl, hadded.partly hnodup hfront, hnone, i, hmem⟩

/-- Linking an entry succeeds in any order or in none, and always with the same words. -/
theorem linkEntry_eq_ok_iff {order : LinkOrder} {labels : Table Word} {place : Nat} {d e : Entry} :
    linkEntry order labels place d = .ok () e ↔ Entry.Linked labels d e := by
  rcases linkEntry_cases order labels place d with
    ⟨e', hok, hlinked⟩ | ⟨name, e', herror, _, hnone, i, hmem⟩
  · rw [hok]
    constructor
    · rintro ⟨rfl⟩
      exact hlinked
    · intro he
      rw [Entry.rightUnique_linked labels he hlinked]
  · rw [herror]
    constructor
    · rintro ⟨⟩
    · intro he
      exact absurd ⟨e, he⟩ (Entry.not_exists_linked hnone hmem)

/-! ## All entries -/

/-- All entries are linked, or the first one that lacks a label is partly so and those
behind it are left as they were. -/
theorem linkEntries_cases (order : LinkOrder) (labels : Table Word) (place : Nat)
    (entries : List Entry) :
    (∃ linked, linkEntries order labels place entries = .ok () linked ∧
      List.Forall₂ (Entry.Linked labels) entries linked) ∨
      ∃ name front d rest linked e, entries = front ++ d :: rest ∧
        linkEntries order labels place entries =
          .error (.labelMissing name) (linked ++ e :: rest) ∧
        List.Forall₂ (Entry.Linked labels) front linked ∧ Entry.Partly labels d e ∧
        labels[name]? = none ∧ ∃ i, (i, name) ∈ d.links := by
  induction entries generalizing place with
  | nil => exact .inl ⟨[], rfl, .nil⟩
  | cons d entries ih =>
    unfold linkEntries
    rcases linkEntry_cases order labels place d with
      ⟨e, hok, hlinked⟩ | ⟨name, e, herror, hpartly, hmissing⟩
    · rw [hok]
      dsimp only
      rcases ih (place + 1) with
        ⟨linked, hok', hrest⟩ | ⟨name, front, d', rest, linked, e', rfl, herror, hfront, hfirst⟩
      · rw [hok']
        exact .inl ⟨e :: linked, rfl, .cons hlinked hrest⟩
      · rw [herror]
        exact .inr ⟨name, d :: front, d', rest, e :: linked, e', rfl, rfl,
          .cons hlinked hfront, hfirst⟩
    · rw [herror]
      exact .inr ⟨name, [], d, entries, [], e, rfl, rfl, .nil, hpartly, hmissing⟩

/-- Linking replaces the entries, also where it fails. -/
theorem run_link (order : LinkOrder) (a : Assembler) :
    (link order).run a =
      match linkEntries order a.labels 0 a.entries.toList with
      | .error e entries => .error e { a with entries := entries.toArray }
      | .ok _ entries => .ok ⟨entries.toArray⟩ { a with entries := entries.toArray } := rfl

/-- Linking keeps the labels, and links the entries one by one. -/
theorem link_eq_ok_iff {order : LinkOrder} {a b : Assembler} {l : Listing} :
    (link order).run a = .ok l b ↔
      List.Forall₂ (Entry.Linked a.labels) a.entries.toList l.entries.toList ∧
        b = { a with entries := l.entries } := by
  rw [run_link]
  rcases linkEntries_cases order a.labels 0 a.entries.toList with
    ⟨linked, hok, hlinked⟩ | ⟨name, front, d, rest, linked, e, hentries, herror, _, _, hmissing⟩
  · rw [hok]
    constructor
    · rintro ⟨⟩
      exact ⟨hlinked, rfl⟩
    · rintro ⟨hl, rfl⟩
      rw [(Entry.rightUnique_linked a.labels).forall₂ hlinked hl]
  · rw [herror]
    constructor
    · rintro ⟨⟩
    · rintro ⟨hl, _⟩
      -- The entry that lacks a label would have to be linked.
      rw [hentries] at hl
      obtain ⟨e', _, he'⟩ := Outcome.exists_mem_of_forall₂ hl
        (List.mem_append_right front List.mem_cons_self)
      obtain ⟨hnone, i, hmem⟩ := hmissing
      exact absurd ⟨e', he'⟩ (Entry.not_exists_linked hnone hmem)

/-- Linking fails at the first entry that lacks a label. The entries before it are linked
by then, and those behind it are as they were. -/
theorem link_eq_error {order : LinkOrder} {a b : Assembler} {error : AssemblyError}
    (herror : (link order).run a = .error error b) :
    ∃ name front d rest linked e, a.entries.toList = front ++ d :: rest ∧
      error = .labelMissing name ∧ b = { a with entries := (linked ++ e :: rest).toArray } ∧
      List.Forall₂ (Entry.Linked a.labels) front linked ∧ Entry.Partly a.labels d e ∧
      a.labels[name]? = none ∧ ∃ i, (i, name) ∈ d.links := by
  rw [run_link] at herror
  rcases linkEntries_cases order a.labels 0 a.entries.toList with
    ⟨linked, hok, _⟩ | ⟨name, front, d, rest, linked, e, hentries, hfail, hfirst⟩
  · rw [hok] at herror
    cases herror
  · rw [hfail] at herror
    cases herror
    exact ⟨name, front, d, rest, linked, e, hentries, rfl, rfl, hfirst⟩

/-- Whether linking succeeds, and with which listing, does not depend on the order. -/
theorem link_eq_ok_of_order {order : LinkOrder} {a b : Assembler} {l : Listing}
    (hlink : (link order).run a = .ok l b) (order' : LinkOrder) :
    (link order').run a = .ok l b :=
  link_eq_ok_iff.mpr (link_eq_ok_iff.mp hlink)

/-- If a single label is missing, linking fails on it in any order. -/
theorem exists_link_error (order : LinkOrder) {a : Assembler} {name : String}
    (hnone : a.labels[name]? = none) {d : Entry} (hd : d ∈ a.entries.toList) {i : Nat}
    (hmem : (i, name) ∈ d.links)
    (honly : ∀ e ∈ a.entries.toList, ∀ i other, (i, other) ∈ e.links →
      a.labels[other]? = none → other = name) :
    ∃ b, (link order).run a = .error (.labelMissing name) b := by
  cases hlink : (link order).run a with
  | ok l b =>
    obtain ⟨hlinked, _⟩ := link_eq_ok_iff.mp hlink
    obtain ⟨e, _, he⟩ := Outcome.exists_mem_of_forall₂ hlinked hd
    exact absurd ⟨e, he⟩ (Entry.not_exists_linked hnone hmem)
  | error e b =>
    obtain ⟨other, front, f, rest, _, _, hentries, rfl, _, _, _, hother, j, hj⟩ :=
      link_eq_error hlink
    have hf : f ∈ a.entries.toList := hentries ▸ List.mem_append_right front List.mem_cons_self
    rw [honly f hf j other hj hother]
    exact ⟨b, rfl⟩

/-! ## The end of a source -/

/-- A source that was read in full ends with its links. Otherwise it is refused before them,
and the assembler stays as it is. -/
theorem run_finish_cases (source : Source) (p : Position) (a : Assembler) :
    (∀ order, (finish order source p).run a = (link order).run a) ∨
      ∃ e, (e = .lineTooLong ∨ (∃ failure, e = .readFailed failure) ∨ e = .macroOpen) ∧
        ∀ order, (finish order source p).run a = .error e a := by
  by_cases hlong : source.hasLongLine = true
  · refine .inr ⟨.lineTooLong, .inl rfl, fun order => ?_⟩
    rw [finish, if_pos hlong]
    rfl
  cases hfailure : source.failure with
  | some failure =>
    refine .inr ⟨.readFailed failure, .inr (.inl ⟨failure, rfl⟩), fun order => ?_⟩
    rw [finish, if_neg hlong, hfailure]
    rfl
  | none =>
    by_cases hopened : p.opened.isSome = true
    · refine .inr ⟨.macroOpen, .inr (.inr rfl), fun order => ?_⟩
      rw [finish, if_neg hlong, hfailure]
      dsimp only
      rw [if_pos hopened]
      rfl
    · refine .inl fun order => ?_
      rw [finish, if_neg hlong, hfailure]
      dsimp only
      rw [if_neg hopened]

end Assembler

end TapeMachine
