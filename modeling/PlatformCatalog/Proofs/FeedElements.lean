import Mathlib.Data.List.Forall2
import Mathlib.Data.List.Induction
import Mathlib.Data.List.Sort
import PlatformCatalog.Fetch.Feed
import PlatformCatalog.Proofs.ReadNames

/-!
# The elements of a feed

An end tag of a listing closes the element that a start tag has opened, if no
other tag of a listing stands between the two. What a feed lists are these
elements in the order of their end tags, each with the attributes of its start
tag and the text between its tags. Other text belongs to no element.
-/

set_option autoImplicit false

namespace PlatformCatalog.Feed

open Markup Text

def startOf? : Event → Option (List Glyph)
  | .opening name content => if isListing name then some content else none
  | _ => none

def isEnd : Event → Bool
  | .closing name => isListing name
  | _ => false

def isTag (e : Event) : Bool := (startOf? e).isSome || isEnd e

/-- The row ends in a listing that is open: behind its start tag stands no other tag of a
listing. -/
def EndsInside (es : List Event) (content : List Glyph) (inner : List Event) : Prop :=
  ∃ before start, es = before ++ start :: inner ∧ startOf? start = some content ∧
    ∀ e ∈ inner, isTag e = false

theorem isTag_eq_false_iff (e : Event) : isTag e = false ↔ startOf? e = none ∧ isEnd e = false := by
  simp [isTag]

theorem not_endsInside_nil (content : List Glyph) (inner : List Event) :
    ¬EndsInside [] content inner := by
  rintro ⟨before, start, heq, -⟩
  simp at heq

theorem endsInside_concat_iff (es : List Event) (e : Event) (content : List Glyph)
    (inner : List Event) :
    EndsInside (es ++ [e]) content inner ↔
      (startOf? e = some content ∧ inner = []) ∨
        isTag e = false ∧ ∃ earlier, inner = earlier ++ [e] ∧ EndsInside es content earlier := by
  constructor
  · rintro ⟨before, start, heq, hstart, hinner⟩
    rcases List.eq_nil_or_concat' inner with rfl | ⟨earlier, last, rfl⟩
    · obtain ⟨-, hlast⟩ := List.append_inj' heq rfl
      left
      exact ⟨(List.cons.inj hlast).1 ▸ hstart, rfl⟩
    · rw [← List.cons_append, ← List.append_assoc] at heq
      obtain ⟨hes, hlast⟩ := List.append_inj' heq rfl
      obtain rfl := (List.cons.inj hlast).1
      right
      have hearlier : ∀ f ∈ earlier, isTag f = false := fun f hf => hinner f (by simp [hf])
      exact ⟨hinner e (by simp), earlier, rfl, before, start, hes, hstart, hearlier⟩
  · rintro (⟨hstart, rfl⟩ | ⟨htag, earlier, rfl, before, start, rfl, hstart, hearlier⟩)
    · exact ⟨es, e, rfl, hstart, by simp⟩
    · refine ⟨before, start, by simp, hstart, ?_⟩
      exact List.forall_mem_append.mpr ⟨hearlier, by simpa using htag⟩

theorem EndsInside.unique {es : List Event} {c d : List Glyph} {inner others : List Event}
    (h : EndsInside es c inner) (k : EndsInside es d others) : c = d ∧ inner = others := by
  induction es using List.reverseRecOn generalizing inner others with
  | nil => exact absurd h (not_endsInside_nil c inner)
  | append_singleton es e ih =>
    rw [endsInside_concat_iff] at h k
    rcases h with ⟨hstart, rfl⟩ | ⟨htag, earlier, rfl, h⟩
    · rcases k with ⟨kstart, rfl⟩ | ⟨ktag, -⟩
      · exact ⟨Option.some.inj (hstart.symm.trans kstart), rfl⟩
      · simp [isTag, hstart] at ktag
    · rcases k with ⟨kstart, -⟩ | ⟨-, others, rfl, k⟩
      · simp [isTag, kstart] at htag
      · obtain ⟨rfl, rfl⟩ := ih h k
        exact ⟨rfl, rfl⟩

def lastValue? (label : String) (as : List (List Glyph × List Glyph)) : Option String :=
  (as.filter fun a => localName a.1 = Glyph.ofString label).getLast?.bind fun a => resolved? a.2

def AllResolve (as : List (List Glyph × List Glyph)) : Prop := ∀ a ∈ as, (resolved? a.2).isSome

theorem lastValue?_cons {as : List (List Glyph × List Glyph)} (h : AllResolve as) (label : String)
    (a : List Glyph × List Glyph) : lastValue? label (a :: as) =
      (lastValue? label as).or
        (if localName a.1 = Glyph.ofString label then resolved? a.2 else none) := by
  rw [lastValue?, lastValue?, List.filter_cons]
  simp only [decide_eq_true_eq]
  split
  · rw [List.getLast?_cons]
    cases hlast : (as.filter fun a => localName a.1 = Glyph.ofString label).getLast? with
    | none => rfl
    | some b =>
      have hb := h b (List.mem_filter.mp (List.mem_of_getLast? hlast)).1
      obtain ⟨value, hvalue⟩ := Option.isSome_iff_exists.mp hb
      simp [hvalue]
  · rw [Option.or_none]

theorem addAttributes_eq (l : Listing) {as : List (List Glyph × List Glyph)} (h : AllResolve as) :
    addAttributes l as = some { l with
      vendor := (lastValue? "vendor" as).getD l.vendor
      product := (lastValue? "product" as).getD l.product } := by
  induction as generalizing l with
  | nil => rfl
  | cons a as ih =>
    obtain ⟨hfirst, hrest⟩ := List.forall_mem_cons.mp h
    obtain ⟨value, hvalue⟩ := Option.isSome_iff_exists.mp hfirst
    have hlabels : Glyph.ofString "vendor" ≠ Glyph.ofString "product" := by decide
    rw [lastValue?_cons hrest, lastValue?_cons hrest]
    simp only [addAttributes, hvalue, Option.bind_eq_bind, Option.bind_some, ih _ hrest,
      addAttribute]
    by_cases hvendor : localName a.1 = Glyph.ofString "vendor"
    · have hproduct : localName a.1 ≠ Glyph.ofString "product" := hvendor ▸ hlabels
      cases lastValue? "vendor" as <;> simp [hvendor, hlabels]
    · by_cases hproduct : localName a.1 = Glyph.ofString "product"
      · cases lastValue? "product" as <;> simp [hproduct, hlabels.symm]
      · simp [hvendor, hproduct]

theorem isSome_addAttributes_iff (l : Listing) (as : List (List Glyph × List Glyph)) :
    (addAttributes l as).isSome ↔ AllResolve as := by
  induction as generalizing l with
  | nil => simp [addAttributes, AllResolve]
  | cons a as ih =>
    rw [AllResolve, List.forall_mem_cons, ← AllResolve]
    simp only [addAttributes, Option.bind_eq_bind]
    cases hvalue : resolved? a.2 with
    | none => simp
    | some value => simpa using ih (addAttribute l a.1 value)

def decoded? : Event → Option String
  | .text content => resolved? content
  | _ => none

def textOf (es : List Event) : String := String.join (es.filterMap decoded?)

def element (content : List Glyph) (inner : List Event) : Listing where
  vendor := (lastValue? "vendor" (attributes content)).getD ""
  product := (lastValue? "product" (attributes content)).getD ""
  uri := textOf inner

/-- An end tag behind this row of events would bring this listing. -/
def Closes (es : List Event) (l : Listing) : Prop :=
  ∃ content inner, EndsInside es content inner ∧
    l = { element content inner with uri := trim (textOf inner) } ∧ l.uri ≠ ""

/-- The event at the place is an end tag of a listing, and brings this one. -/
def BringsAt (es : List Event) (place : Nat) (l : Listing) : Prop :=
  (∃ e, es[place]? = some e ∧ isEnd e = true) ∧ Closes (es.take place) l

/-- The listings are those of the end tags, in their order. -/
def Lists (es : List Event) (ls : List Listing) : Prop :=
  ∃ places : List Nat, places.Pairwise (· < ·) ∧ List.Forall₂ (BringsAt es) places ls ∧
    ∀ place l, BringsAt es place l → place ∈ places

theorem bringsAt_concat_iff (es : List Event) (e : Event) (place : Nat) (l : Listing) :
    BringsAt (es ++ [e]) place l ↔
      BringsAt es place l ∨ (place = es.length ∧ isEnd e = true ∧ Closes es l) := by
  rcases Nat.lt_trichotomy place es.length with hlt | rfl | hgt
  · rw [BringsAt, List.getElem?_append_left hlt, List.take_append_of_le_length (Nat.le_of_lt hlt),
      ← BringsAt]
    simp [Nat.ne_of_lt hlt]
  · simp [BringsAt]
  · have hnone : (es ++ [e])[place]? = none := by
      rw [List.getElem?_eq_none_iff, List.length_append, List.length_singleton]
      omega
    simp [BringsAt, hnone, List.getElem?_eq_none (Nat.le_of_lt hgt), Nat.ne_of_gt hgt]

theorem BringsAt.lt_length {es : List Event} {place : Nat} {l : Listing}
    (h : BringsAt es place l) : place < es.length := by
  obtain ⟨⟨e, he, -⟩, -⟩ := h
  exact (List.getElem?_eq_some_iff.mp he).1

theorem BringsAt.unique {es : List Event} {place : Nat} {l m : Listing} (hl : BringsAt es place l)
    (hm : BringsAt es place m) : l = m := by
  obtain ⟨-, content, inner, hinside, hl, -⟩ := hl
  obtain ⟨-, content', inner', hinside', hm, -⟩ := hm
  obtain ⟨rfl, rfl⟩ := hinside.unique hinside'
  exact hl.trans hm.symm

theorem lists_nil : Lists [] [] :=
  ⟨[], .nil, .nil, fun _ _ h => absurd h.lt_length (Nat.not_lt_zero _)⟩

theorem Lists.concat {es : List Event} {ls : List Listing} (h : Lists es ls) {e : Event}
    (hnone : ∀ l, isEnd e = true → ¬Closes es l) : Lists (es ++ [e]) ls := by
  obtain ⟨places, hascending, hbrings, hall⟩ := h
  refine ⟨places, hascending, ?_, ?_⟩
  · exact hbrings.imp fun place l hl => (bringsAt_concat_iff es e place l).mpr (Or.inl hl)
  · intro place l hl
    rcases (bringsAt_concat_iff es e place l).mp hl with hl | ⟨-, hend, hcloses⟩
    · exact hall place l hl
    · exact absurd hcloses (hnone l hend)

theorem BringsAt.exists_of_mem {es : List Event} {places : List Nat} {ls : List Listing}
    (h : List.Forall₂ (BringsAt es) places ls) : ∀ place ∈ places, ∃ l, BringsAt es place l := by
  induction h with
  | nil => simp
  | cons hfirst _ ih => exact List.forall_mem_cons.mpr ⟨⟨_, hfirst⟩, ih⟩

theorem Lists.concat_end {es : List Event} {ls : List Listing} (h : Lists es ls) {e : Event}
    (hend : isEnd e = true) {l : Listing} (hcloses : Closes es l) :
    Lists (es ++ [e]) (ls ++ [l]) := by
  obtain ⟨places, hascending, hbrings, hall⟩ := h
  have hearlier : ∀ place ∈ places, place < es.length := by
    intro place hplace
    obtain ⟨k, hk⟩ := BringsAt.exists_of_mem hbrings place hplace
    exact hk.lt_length
  refine ⟨places ++ [es.length], ?_, ?_, ?_⟩
  · exact List.pairwise_append.mpr
      ⟨hascending, List.pairwise_singleton _ _, by simpa using hearlier⟩
  · apply List.rel_append
    · exact hbrings.imp fun place l hl => (bringsAt_concat_iff es e place l).mpr (Or.inl hl)
    · have hlast := (bringsAt_concat_iff es e es.length l).mpr (Or.inr ⟨rfl, hend, hcloses⟩)
      exact .cons hlast .nil
  · intro place l hl
    rcases (bringsAt_concat_iff es e place l).mp hl with hl | ⟨rfl, -, -⟩
    · exact List.mem_append_left _ (hall place l hl)
    · simp

theorem Lists.unique {es : List Event} {ls ms : List Listing} (hl : Lists es ls)
    (hm : Lists es ms) : ls = ms := by
  obtain ⟨places, hascending, hbrings, hall⟩ := hl
  obtain ⟨others, hascending', hbrings', hall'⟩ := hm
  have hplaces : places = others := by
    apply hascending.eq_of_mem_iff hascending'
    intro place
    constructor
    · intro hplace
      obtain ⟨l, hl⟩ := BringsAt.exists_of_mem hbrings place hplace
      exact hall' place l hl
    · intro hplace
      obtain ⟨l, hl⟩ := BringsAt.exists_of_mem hbrings' place hplace
      exact hall place l hl
  subst hplaces
  have hright : Relator.RightUnique (BringsAt es) := fun _ _ _ => BringsAt.unique
  exact hright.forall₂ hbrings hbrings'

/-- Whether the values that count in an event resolve, given the events before it. -/
def ReadableAfter (es : List Event) : Event → Prop
  | .opening name content => isListing name = true → AllResolve (attributes content)
  | .text content => (∃ start inner, EndsInside es start inner) → (resolved? content).isSome
  | .closing _ | .selfClosing | .aside => True

def Readable (es : List Event) : Prop := ∀ front e, front ++ [e] <+: es → ReadableAfter front e

theorem readable_concat_iff (es : List Event) (e : Event) :
    Readable (es ++ [e]) ↔ Readable es ∧ ReadableAfter es e := by
  constructor
  · intro h
    exact ⟨fun front f hf => h front f (hf.trans (List.prefix_append es [e])),
      h es e List.prefix_rfl⟩
  · rintro ⟨hes, he⟩ front f hf
    rcases List.prefix_concat_iff.mp hf with heq | hf
    · obtain ⟨rfl, hlast⟩ := List.append_inj' heq rfl
      obtain rfl := (List.cons.inj hlast).1
      exact he
    · exact hes front f hf

/-- What the events of a feed have left behind: the listing that is open, and those before it. -/
structure Reads (es : List Event) (s : State) : Prop where
  current : ∀ l, s.current = some l ↔
    ∃ content inner, EndsInside es content inner ∧ l = element content inner
  listings : Lists es s.listings.reverse

theorem reads_nil : Reads [] {} where
  current := by simp [not_endsInside_nil]
  listings := lists_nil

theorem textOf_concat (es : List Event) (e : Event) :
    textOf (es ++ [e]) = textOf es ++ (decoded? e).getD "" := by
  rw [textOf, List.filterMap_append, String.join_append]
  cases h : decoded? e <;> simp [textOf, h]

theorem step_of_isTag_eq_false {s t : State} {e : Event} (htag : isTag e = false)
    (hstep : step s e = some t) : t = { s with
      current := s.current.map fun l => { l with uri := l.uri ++ (decoded? e).getD "" } } := by
  obtain ⟨hstart, hend⟩ := (isTag_eq_false_iff e).mp htag
  cases e with
  | opening name content =>
    have hname : isListing name = false := by simpa [startOf?] using hstart
    obtain rfl : s = t := by simpa [step, hname] using hstep
    simp [decoded?]
  | closing name =>
    obtain rfl : s = t := by simpa [step, show isListing name = false from hend] using hstep
    simp [decoded?]
  | text content =>
    cases hcurrent : s.current with
    | none =>
      obtain rfl : s = t := by simpa [step, hcurrent] using hstep
      rw [Option.map_none, ← hcurrent]
    | some l =>
      simp only [step, hcurrent, Option.bind_eq_bind, Option.bind_eq_some_iff] at hstep
      obtain ⟨piece, hpiece, ht⟩ := hstep
      simp [decoded?, hpiece, ← Option.some.inj ht]
  | selfClosing | aside =>
    obtain rfl : s = t := Option.some.inj hstep
    simp [decoded?]

namespace Reads

variable {es : List Event} {s : State}

theorem current_isSome_iff (h : Reads es s) :
    s.current.isSome ↔ ∃ content inner, EndsInside es content inner := by
  rw [Option.isSome_iff_exists]
  constructor
  · rintro ⟨l, hl⟩
    obtain ⟨content, inner, hinside, -⟩ := (h.current l).mp hl
    exact ⟨content, inner, hinside⟩
  · rintro ⟨content, inner, hinside⟩
    exact ⟨_, (h.current _).mpr ⟨content, inner, hinside, rfl⟩⟩

theorem isSome_step_iff (h : Reads es s) (e : Event) :
    (step s e).isSome ↔ ReadableAfter es e := by
  cases e with
  | opening name content =>
    rw [ReadableAfter, ← isSome_addAttributes_iff {}, step]
    by_cases hname : isListing name = true
    · cases addAttributes {} (attributes content) <;> simp [hname]
    · simp [hname]
  | closing name =>
    rw [ReadableAfter, step]
    split <;> simp
  | text content =>
    rw [ReadableAfter, ← h.current_isSome_iff, step]
    cases hcurrent : s.current with
    | none => simp
    | some l => cases resolved? content <;> simp
  | selfClosing | aside => simp [step, ReadableAfter]

theorem started (h : Reads es s) {e : Event} {content : List Glyph}
    (hstart : startOf? e = some content) :
    Reads (es ++ [e]) { s with current := some (element content []) } := by
  have htag : isTag e = true := by simp [isTag, hstart]
  have hend : isEnd e = false := by
    cases e <;> simp_all [startOf?, isEnd]
  constructor
  · intro l
    simp [endsInside_concat_iff, htag, hstart, eq_comm]
  · exact h.listings.concat (by simp [hend])

theorem other (h : Reads es s) {e : Event} (htag : isTag e = false) :
    Reads (es ++ [e]) { s with
      current := s.current.map fun l => { l with uri := l.uri ++ (decoded? e).getD "" } } := by
  obtain ⟨hstart, hend⟩ := (isTag_eq_false_iff e).mp htag
  have hinside : ∀ content inner, EndsInside (es ++ [e]) content inner ↔
      ∃ earlier, inner = earlier ++ [e] ∧ EndsInside es content earlier := by
    simp [endsInside_concat_iff, hstart, htag]
  constructor
  · intro l
    simp only [Option.map_eq_some_iff, h.current, hinside]
    constructor
    · rintro ⟨_, ⟨content, inner, hopen, rfl⟩, rfl⟩
      exact ⟨content, inner ++ [e], ⟨inner, rfl, hopen⟩, by simp [element, textOf_concat]⟩
    · rintro ⟨content, _, ⟨inner, rfl, hopen⟩, rfl⟩
      exact ⟨_, ⟨content, inner, hopen, rfl⟩, by simp [element, textOf_concat]⟩
  · exact h.listings.concat (by simp [hend])

theorem closes_iff (h : Reads es s) (l : Listing) :
    Closes es l ↔ ∃ k, s.current = some k ∧ l = { k with uri := trim k.uri } ∧ l.uri ≠ "" := by
  constructor
  · rintro ⟨content, inner, hinside, hl, huri⟩
    exact ⟨_, (h.current _).mpr ⟨content, inner, hinside, rfl⟩, hl, huri⟩
  · rintro ⟨k, hk, hl, huri⟩
    obtain ⟨content, inner, hinside, rfl⟩ := (h.current k).mp hk
    exact ⟨content, inner, hinside, hl, huri⟩

theorem ended (h : Reads es s) {e : Event} (hend : isEnd e = true) :
    Reads (es ++ [e]) (close s) := by
  have htag : isTag e = true := by simp [isTag, hend]
  have hstart : startOf? e = none := by
    cases e <;> simp_all [startOf?, isEnd]
  have hinside : ∀ content inner, ¬EndsInside (es ++ [e]) content inner := by
    simp [endsInside_concat_iff, hstart, htag]
  have hcloses := h.closes_iff
  cases hcurrent : s.current with
  | none =>
    simp only [hcurrent] at hcloses
    constructor
    · simp [close, hcurrent, hinside]
    · simpa [close, hcurrent] using h.listings.concat (by simp [hcloses])
  | some k =>
    simp only [hcurrent, Option.some.injEq] at hcloses
    constructor
    · simp [close, hcurrent, hinside]
    · by_cases huri : trim k.uri = ""
      · simpa [close, hcurrent, huri] using h.listings.concat (by simp [hcloses, huri])
      · have hlisted := (hcloses { k with uri := trim k.uri }).mpr ⟨k, rfl, rfl, huri⟩
        simpa [close, hcurrent, huri] using h.listings.concat_end hend hlisted

theorem step (h : Reads es s) {e : Event} {t : State} (hstep : Feed.step s e = some t) :
    Reads (es ++ [e]) t := by
  cases htag : isTag e with
  | false =>
    rw [step_of_isTag_eq_false htag hstep]
    exact h.other htag
  | true =>
    cases e with
    | opening name content =>
      have hname : isListing name = true := by simpa [isTag, startOf?, isEnd] using htag
      have hresolve : AllResolve (attributes content) := by
        have hread := (h.isSome_step_iff _).mp (Option.isSome_iff_exists.mpr ⟨t, hstep⟩)
        exact hread hname
      have ht : t = { s with current := some (element content []) } := by
        simpa [Feed.step, hname, addAttributes_eq {} hresolve, element, textOf, eq_comm] using hstep
      rw [ht]
      exact h.started (by simp [startOf?, hname])
    | closing name =>
      have hname : isListing name = true := by simpa [isTag, startOf?, isEnd] using htag
      have ht : t = close s := by simpa [Feed.step, hname, eq_comm] using hstep
      rw [ht]
      exact h.ended hname
    | text _ | selfClosing | aside => simp [isTag, startOf?, isEnd] at htag

end Reads

theorem runEvents_append (s : State) (xs ys : List Event) :
    runEvents s (xs ++ ys) = (runEvents s xs).bind fun t => runEvents t ys := by
  induction xs generalizing s with
  | nil => rfl
  | cons e xs ih =>
    simp only [List.cons_append, runEvents, Option.bind_eq_bind]
    cases step s e with
    | none => rfl
    | some t => exact ih t

theorem runEvents_concat (s : State) (es : List Event) (e : Event) :
    runEvents s (es ++ [e]) = (runEvents s es).bind fun t => step t e := by
  have hlast : ∀ t, runEvents t [e] = step t e := by
    intro t
    simp [runEvents]
  simp only [runEvents_append, hlast]

/-- The events of a feed are read to their end exactly if all values that count resolve. -/
theorem run_reads (es : List Event) :
    (Readable es → ∃ s, runEvents {} es = some s) ∧
      ∀ s, runEvents {} es = some s → Readable es ∧ Reads es s := by
  induction es using List.reverseRecOn with
  | nil =>
    constructor
    · exact fun _ => ⟨{}, rfl⟩
    · intro s hs
      obtain rfl := Option.some.inj hs
      exact ⟨by simp [Readable], reads_nil⟩
  | append_singleton es e ih =>
    obtain ⟨hrun, hreads⟩ := ih
    rw [runEvents_concat, readable_concat_iff]
    constructor
    · rintro ⟨hes, he⟩
      obtain ⟨s, hs⟩ := hrun hes
      rw [hs, Option.bind_some, ← Option.isSome_iff_exists, (hreads s hs).2.isSome_step_iff]
      exact he
    · intro t ht
      obtain ⟨s, hs, hstep⟩ := Option.bind_eq_some_iff.mp ht
      obtain ⟨hes, hkept⟩ := hreads s hs
      have he := (hkept.isSome_step_iff e).mp (Option.isSome_iff_exists.mpr ⟨t, hstep⟩)
      exact ⟨⟨hes, he⟩, hkept.step hstep⟩

theorem isSome_ofEvents_iff (es : List Event) : (ofEvents es).isSome ↔ Readable es := by
  rw [ofEvents, Option.isSome_map, Option.isSome_iff_exists]
  constructor
  · rintro ⟨s, hs⟩
    exact ((run_reads es).2 s hs).1
  · exact (run_reads es).1

theorem lists_of_ofEvents {es : List Event} {ls : List Listing} (h : ofEvents es = some ls) :
    Lists es ls := by
  obtain ⟨s, hs, rfl⟩ := Option.map_eq_some_iff.mp h
  exact ((run_reads es).2 s hs).2.listings

theorem parse_eq_ok {bytes : List UInt8} {es : List Event} {ls : List Listing}
    (hread : events bytes = .ok es) (hlistings : ofEvents es = some ls) :
    parse bytes = .ok ls := by
  simp [parse, hread, hlistings]

def decodes : Event → Bool
  | .opening _ content => (attributes content).all fun a => (resolved? a.2).isSome
  | .text content => (resolved? content).isSome
  | .closing _ | .selfClosing | .aside => true

theorem readable_of_decodes {es : List Event} (h : ∀ e ∈ es, decodes e = true) : Readable es := by
  intro front e hfront
  have he := h e (hfront.subset (by simp))
  cases e with
  | opening name content => exact fun _ => List.all_eq_true.mp he
  | text content => exact fun _ => he
  | closing _ | selfClosing | aside => trivial

/-- What is read from a feed are the listings of its end tags, one for each that closes an element
with a URI, in the order of the document. -/
theorem feed_lists_elements (es : List Event) (hdecodes : ∀ e ∈ es, decodes e = true) :
    ∃ ls, ofEvents es = some ls ∧ (∀ ms, Lists es ms ↔ ms = ls) ∧
      ∀ bytes, events bytes = .ok es → parse bytes = .ok ls := by
  obtain ⟨ls, hls⟩ := Option.isSome_iff_exists.mp
    ((isSome_ofEvents_iff es).mpr (readable_of_decodes hdecodes))
  have hlists := lists_of_ofEvents hls
  refine ⟨ls, hls, ?_, fun bytes hread => parse_eq_ok hread hls⟩
  intro ms
  constructor
  · exact fun hms => hms.unique hlists
  · rintro rfl
    exact hlists

def nestedFeed : String :=
  "<feed>lost<cpe vendor='Lost'>lost" ++
    "<a:cpe vendor='NTP' b:vendor='Apache' product='Struts &amp; Co'>" ++
    " cpe:/a:<i>apache</i>:struts </a:cpe>lost</cpe><cpe/><cpe> </cpe></feed>"

def nestedEvents : List Event :=
  let g := Glyph.ofString
  [.opening (g "feed") [], .text (g "lost"), .opening (g "cpe") (g " vendor='Lost'"),
    .text (g "lost"),
    .opening (g "a:cpe") (g " vendor='NTP' b:vendor='Apache' product='Struts &amp; Co'"),
    .text (g "cpe:/a:"), .opening (g "i") [], .text (g "apache"), .closing (g "i"),
    .text (g ":struts"), .closing (g "a:cpe"), .text (g "lost"), .closing (g "cpe"), .selfClosing,
    .opening (g "cpe") [], .closing (g "cpe"), .closing (g "feed")]

theorem feed_lists_elements_nested :
    events nestedFeed.toUTF8.data.toList = .ok nestedEvents ∧
      (∀ e ∈ nestedEvents, decodes e = true) ∧
      Lists nestedEvents [⟨"Apache", "Struts & Co", "cpe:/a:apache:struts"⟩] ∧
      parse nestedFeed.toUTF8.data.toList =
        .ok [⟨"Apache", "Struts & Co", "cpe:/a:apache:struts"⟩] := by
  have hread : events nestedFeed.toUTF8.data.toList = .ok nestedEvents :=
    toOption_eq_some_iff.mp (by decide +kernel)
  have hdecodes : ∀ e ∈ nestedEvents, decodes e = true := by decide +kernel
  have hlistings : ofEvents nestedEvents =
      some [⟨"Apache", "Struts & Co", "cpe:/a:apache:struts"⟩] := by decide +kernel
  obtain ⟨ls, hls, hlists, hparse⟩ := feed_lists_elements nestedEvents hdecodes
  obtain rfl := Option.some.inj (hlistings.symm.trans hls)
  exact ⟨hread, hdecodes, (hlists _).mpr rfl, hparse _ hread⟩

end PlatformCatalog.Feed
