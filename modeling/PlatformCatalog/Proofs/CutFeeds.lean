import PlatformCatalog.Proofs.FeedElements
import PlatformCatalog.Proofs.FetchedBatches

/-!
# Feeds that are cut off

A reader of markup matches each end tag with the innermost open element, but
it does not ask for the end tags that are left out. So a feed is read or
refused for what stands in it, however many of its elements stay open. A feed
that is cut off between two pieces of markup is taken for a whole one, and
lists the elements that were closed before the cut.
-/

set_option autoImplicit false

namespace PlatformCatalog

open Text

namespace Markup

def after (names : List (List Glyph)) : Event → List (List Glyph)
  | .opening name _ => name :: names
  | .closing _ => names.tail
  | .selfClosing | .text _ | .aside => names

def openElements (es : List Event) : List (List Glyph) := es.foldl after []

/-- Each end tag has the name of the innermost element that is open there. -/
def EndTagsMatch (es : List Event) : Prop :=
  ∀ front name, front ++ [.closing name] <+: es → (openElements front).head? = some name

theorem openElements_concat (es : List Event) (e : Event) :
    openElements (es ++ [e]) = after (openElements es) e := by
  rw [openElements, List.foldl_append]
  rfl

theorem EndTagsMatch.concat {es : List Event} (h : EndTagsMatch es) {e : Event}
    (he : ∀ name, e = .closing name → (openElements es).head? = some name) :
    EndTagsMatch (es ++ [e]) := by
  intro front name hfront
  rcases List.prefix_concat_iff.mp hfront with heq | hfront
  · obtain ⟨rfl, hlast⟩ := List.append_inj' heq rfl
    exact he name (List.cons.inj hlast).1.symm
  · exact h front name hfront

namespace Machine

variable {m n : Machine}

/-- From one state of a reader to another one, it meets one event at most. -/
def Meets (m n : Machine) : Prop :=
  (n.events = m.events ∧ n.openNames = m.openNames) ∨
    ∃ e, n.events = e :: m.events ∧ n.openNames = after m.openNames e ∧
      ∀ name, e = .closing name → m.openNames.head? = some name

theorem meets_mode (m : Machine) (mode : Mode) : m.Meets { m with mode := mode } :=
  Or.inl ⟨rfl, rfl⟩

theorem meets_aside (m : Machine) : m.Meets (m.emit .aside) :=
  Or.inr ⟨.aside, rfl, rfl, fun _ h => by cases h⟩

theorem meets_flush (m : Machine) (read : List Glyph) : m.Meets (m.flush read) := by
  rw [flush]
  split
  · exact meets_mode m m.mode
  · exact Or.inr ⟨.text _, rfl, rfl, fun _ h => by cases h⟩

theorem meets_closeTag {content : List Glyph} (h : m.closeTag content = .ok n) : m.Meets n := by
  rw [closeTag] at h
  split at h
  · cases h
  · next top rest hopen =>
    split at h
    · next hname =>
      obtain rfl := Except.ok.inj h
      refine Or.inr ⟨.closing _, rfl, by rw [hopen]; rfl, ?_⟩
      rintro _ ⟨⟩
      rw [hopen, hname, List.head?_cons]
    · cases h

theorem meets_openTag {content : List Glyph} (h : m.openTag content = .ok n) : m.Meets n := by
  simp only [openTag] at h
  split at h
  · obtain rfl := Except.ok.inj h
    exact Or.inr ⟨.selfClosing, rfl, rfl, fun _ h => by cases h⟩
  · obtain rfl := Except.ok.inj h
    exact Or.inr ⟨.opening _ _, rfl, rfl, fun _ h => by cases h⟩

theorem meets_endTag {content : List Glyph} (h : m.endTag content = .ok n) : m.Meets n := by
  rw [endTag.eq_def] at h
  split at h
  · exact meets_closeTag h
  · exact meets_openTag h

theorem meets_readTag {read : List Glyph} {g : Glyph} (h : m.readTag read g = .ok n) :
    m.Meets n := by
  rw [readTag] at h
  split at h
  · exact meets_endTag h
  · split at h <;> cases h <;> exact meets_mode m _

theorem meets_startMarkup {g : Glyph} (h : m.startMarkup g = .ok n) : m.Meets n := by
  rw [startMarkup.eq_def] at h
  split at h
  · cases h
    exact meets_mode m _
  · cases h
    exact meets_mode m _
  · exact meets_readTag h

theorem meets_startDeclaration {g : Glyph} (h : m.startDeclaration g = .ok n) : m.Meets n := by
  rw [startDeclaration.eq_def] at h
  split at h <;> cases h <;> exact meets_mode m _

theorem meets_step {g : Glyph} (h : m.step g = .ok n) : m.Meets n := by
  cases hmode : m.mode with
  | text read =>
    simp only [step, hmode] at h
    split at h <;> cases h
    · exact meets_flush m read
    · exact meets_mode m _
  | opened =>
    simp only [step, hmode] at h
    exact meets_startMarkup h
  | tag read quote =>
    cases quote with
    | some quote =>
      simp only [step, hmode] at h
      cases h
      exact meets_mode m _
    | none =>
      simp only [step, hmode] at h
      exact meets_readTag h
  | declared left ending =>
    cases left with
    | nil =>
      simp only [step, hmode] at h
      exact meets_startDeclaration h
    | cons c left =>
      simp only [step, hmode] at h
      split at h
      · cases h
      · split at h <;> cases h <;> exact meets_mode m _
  | block ending left =>
    simp only [step, hmode] at h
    split at h <;> cases h
    · exact meets_aside m
    · exact meets_mode m _
  | documentType read depth =>
    simp only [step, hmode] at h
    split at h
    · cases h
      exact meets_mode m _
    · split at h
      · split at h
        · split at h <;> cases h
          exact meets_aside m
        · cases h
          exact meets_mode m _
      · cases h
        exact meets_mode m _
  | instruction isFirst afterMark =>
    simp only [step, hmode] at h
    split at h
    · cases h
    · split at h <;> cases h
      · exact meets_aside m
      · exact meets_mode m _

theorem Meets.suffix_events (h : m.Meets n) : m.events <:+ n.events := by
  rcases h with ⟨heq, -⟩ | ⟨e, heq, -⟩
  · exact heq ▸ List.suffix_rfl
  · exact heq ▸ List.suffix_cons e m.events

/-- A reader knows which elements are open, and has matched the end tags so far. -/
structure Matched (m : Machine) : Prop where
  openNames : m.openNames = openElements m.events.reverse
  endTags : EndTagsMatch m.events.reverse

theorem matched_begin : Matched {} where
  openNames := rfl
  endTags := by simp [EndTagsMatch]

theorem Matched.meets (h : m.Matched) (hmeets : m.Meets n) : n.Matched := by
  rcases hmeets with ⟨hevents, hopen⟩ | ⟨e, hevents, hopen, hclosing⟩
  · exact ⟨by rw [hopen, hevents, h.openNames], hevents ▸ h.endTags⟩
  · rw [h.openNames] at hopen hclosing
    constructor
    · rw [hopen, hevents, List.reverse_cons, openElements_concat]
    · rw [hevents, List.reverse_cons]
      exact h.endTags.concat hclosing

theorem run_eq_ok_iff (m : Machine) (g : Glyph) (gs : List Glyph) (n : Machine) :
    m.run (g :: gs) = .ok n ↔ ∃ k, m.step g = .ok k ∧ k.run gs = .ok n := by
  rw [run]
  cases m.step g <;> simp [bind, Except.bind]

theorem suffix_run {gs : List Glyph} (h : m.run gs = .ok n) : m.events <:+ n.events := by
  induction gs generalizing m with
  | nil => exact Except.ok.inj h ▸ List.suffix_rfl
  | cons g gs ih =>
    obtain ⟨k, hstep, hrun⟩ := (run_eq_ok_iff m g gs n).mp h
    exact (meets_step hstep).suffix_events.trans (ih hrun)

theorem Matched.run (h : m.Matched) {gs : List Glyph} (hrun : m.run gs = .ok n) : n.Matched := by
  induction gs generalizing m with
  | nil => exact Except.ok.inj hrun ▸ h
  | cons g gs ih =>
    obtain ⟨k, hstep, hrest⟩ := (run_eq_ok_iff m g gs n).mp hrun
    exact ih (h.meets (meets_step hstep)) hrest

theorem run_append_eq_ok_iff (m : Machine) (xs ys : List Glyph) (n : Machine) :
    m.run (xs ++ ys) = .ok n ↔ ∃ k, m.run xs = .ok k ∧ k.run ys = .ok n := by
  induction xs generalizing m with
  | nil => simp [run]
  | cons g xs ih =>
    simp only [List.cons_append, run_eq_ok_iff, ih]
    constructor
    · rintro ⟨k, hstep, l, hxs, hys⟩
      exact ⟨l, ⟨k, hstep, hxs⟩, hys⟩
    · rintro ⟨l, ⟨k, hstep, hxs⟩, hys⟩
      exact ⟨k, hstep, l, hxs, hys⟩

theorem finish_cases (m : Machine) :
    m.finish = .error .unclosed ∨ m.finish = .ok m.events.reverse ∨
      ∃ content, m.finish = .ok (m.events.reverse ++ [.text content]) := by
  rw [finish]
  split
  · next read _ =>
    right
    rw [flush]
    split
    · exact Or.inl rfl
    · exact Or.inr ⟨_, by rw [List.reverse_cons]⟩
  · exact Or.inl rfl

theorem prefix_finish {es : List Event} (h : m.finish = .ok es) : m.events.reverse <+: es := by
  rcases m.finish_cases with hnone | heq | ⟨content, heq⟩
  · rw [hnone] at h
    cases h
  · rw [heq] at h
    exact Except.ok.inj h ▸ List.prefix_rfl
  · rw [heq] at h
    exact Except.ok.inj h ▸ List.prefix_append _ _

theorem Matched.finish (h : m.Matched) {es : List Event} (hfinish : m.finish = .ok es) :
    EndTagsMatch es := by
  rcases m.finish_cases with hnone | heq | ⟨content, heq⟩
  · rw [hnone] at hfinish
    cases hfinish
  · rw [heq] at hfinish
    exact Except.ok.inj hfinish ▸ h.endTags
  · rw [heq] at hfinish
    rw [← Except.ok.inj hfinish]
    exact h.endTags.concat fun _ h => by cases h

end Machine

theorem events_eq_ok_iff (bytes : List UInt8) (es : List Event) :
    events bytes = .ok es ↔
      ∃ m, Machine.run {} (withoutMark (Glyph.ofBytes bytes)) = .ok m ∧ m.finish = .ok es := by
  rw [events]
  cases Machine.run {} (withoutMark (Glyph.ofBytes bytes)) <;> simp [bind, Except.bind]

theorem withoutMark_append {xs : List Glyph} (hxs : xs ≠ []) (ys : List Glyph) :
    withoutMark (xs ++ ys) = withoutMark xs ++ ys := by
  obtain ⟨x, xs, rfl⟩ := List.exists_cons_of_ne_nil hxs
  by_cases hx : x = .char '\uFEFF'
  · subst hx
    rfl
  · simp [withoutMark, hx]

theorem endTagsMatch_events {bytes : List UInt8} {es : List Event} (h : events bytes = .ok es) :
    EndTagsMatch es := by
  obtain ⟨m, hrun, hfinish⟩ := (events_eq_ok_iff bytes es).mp h
  exact (Machine.matched_begin.run hrun).finish hfinish

/-- What a reader meets before a cut between two characters it meets in the whole document. -/
theorem exists_met_of_cut {front rest : List UInt8} {es : List Event}
    (hcut : Glyph.ofBytes (front ++ rest) = Glyph.ofBytes front ++ Glyph.ofBytes rest)
    (hwhole : events (front ++ rest) = .ok es) :
    ∃ met, met <+: es ∧ (events front = .error .unclosed ∨ events front = .ok met ∨
      ∃ content, events front = .ok (met ++ [.text content])) := by
  by_cases hfront : Glyph.ofBytes front = []
  · refine ⟨[], List.nil_prefix, Or.inr (Or.inl ?_)⟩
    rw [events, hfront]
    rfl
  · obtain ⟨n, hrun, hfinish⟩ := (events_eq_ok_iff _ es).mp hwhole
    rw [hcut, withoutMark_append hfront, Machine.run_append_eq_ok_iff] at hrun
    obtain ⟨m, hm, hrest⟩ := hrun
    have hevents : events front = m.finish := by
      rw [events, hm]
      rfl
    have hmet := List.reverse_prefix.mpr (Machine.suffix_run hrest)
    refine ⟨m.events.reverse, hmet.trans (Machine.prefix_finish hfinish), ?_⟩
    rw [hevents]
    exact m.finish_cases

end Markup

namespace Feed

open Markup

theorem suffix_close (s : State) : s.listings <:+ (close s).listings := by
  rw [close]
  split
  · exact List.suffix_rfl
  · dsimp only
    split
    · exact List.suffix_rfl
    · exact List.suffix_cons _ _

theorem suffix_step {s t : State} {e : Event} (h : step s e = some t) :
    s.listings <:+ t.listings := by
  cases htag : isTag e with
  | false => exact step_of_isTag_eq_false htag h ▸ List.suffix_rfl
  | true =>
    cases e with
    | opening name content =>
      have hname : isListing name = true := by simpa [isTag, startOf?, isEnd] using htag
      simp only [step, hname, if_true, Option.bind_eq_bind, Option.bind_eq_some_iff] at h
      obtain ⟨l, -, ht⟩ := h
      exact Option.some.inj ht ▸ List.suffix_rfl
    | closing name =>
      have hname : isListing name = true := by simpa [isTag, startOf?, isEnd] using htag
      simp only [step, hname, if_true, Option.some.injEq] at h
      exact h ▸ suffix_close s
    | text _ | selfClosing | aside => simp [isTag, startOf?, isEnd] at htag

theorem suffix_runEvents {s t : State} {es : List Event} (h : runEvents s es = some t) :
    s.listings <:+ t.listings := by
  induction es generalizing s with
  | nil => exact Option.some.inj h ▸ List.suffix_rfl
  | cons e es ih =>
    simp only [runEvents, Option.bind_eq_bind, Option.bind_eq_some_iff] at h
    obtain ⟨k, hstep, hrun⟩ := h
    exact (suffix_step hstep).trans (ih hrun)

theorem ofEvents_append {xs ys : List Event} {ls : List Listing}
    (h : ofEvents (xs ++ ys) = some ls) : ∃ ms, ofEvents xs = some ms ∧ ms <+: ls := by
  rw [ofEvents, runEvents_append] at h
  obtain ⟨t, ht, rfl⟩ := Option.map_eq_some_iff.mp h
  obtain ⟨s, hs, hrest⟩ := Option.bind_eq_some_iff.mp ht
  refine ⟨s.listings.reverse, by rw [ofEvents, hs]; rfl, ?_⟩
  exact List.reverse_prefix.mpr (suffix_runEvents hrest)

theorem ofEvents_concat_text {es : List Event} {content : List Glyph} {ls : List Listing}
    (h : ofEvents (es ++ [.text content]) = some ls) : ofEvents es = some ls := by
  rw [ofEvents, runEvents_concat] at h
  obtain ⟨t, ht, rfl⟩ := Option.map_eq_some_iff.mp h
  obtain ⟨s, hs, hstep⟩ := Option.bind_eq_some_iff.mp ht
  have hlistings := step_of_isTag_eq_false rfl hstep
  rw [ofEvents, hs, hlistings]
  rfl

theorem parse_eq_ok_iff (bytes : List UInt8) (ls : List Listing) :
    parse bytes = .ok ls ↔ ∃ es, events bytes = .ok es ∧ ofEvents es = some ls := by
  rw [parse]
  cases events bytes with
  | error f => simp
  | ok es => cases hlistings : ofEvents es <;> simp [hlistings]

end Feed

namespace Fetcher

open Markup Feed

/-- The feed is refused as one that is malformed. -/
def Refuses (address : String) (bytes : List UInt8) : Prop :=
  ∃ reason, readFeed address (.bytes bytes) =
    .error (.malformedEnvelope ("JVN feed " ++ address) reason)

theorem refuses_iff (address : String) (bytes : List UInt8) :
    Refuses address bytes ↔ ¬∃ ls, parse bytes = .ok ls := by
  simp only [Refuses, readFeed]
  cases parse bytes <;> simp

theorem refuses_iff_not_readable (address : String) (bytes : List UInt8) :
    Refuses address bytes ↔ ∀ es, events bytes = .ok es → ¬Readable es := by
  simp only [refuses_iff, parse_eq_ok_iff, ← isSome_ofEvents_iff, Option.isSome_iff_exists]
  constructor
  · rintro h es hread ⟨ls, hls⟩
    exact h ⟨ls, es, hread, hls⟩
  · rintro h ⟨ls, es, hread, hls⟩
    exact h es hread ⟨ls, hls⟩

theorem not_readable_cut_iff {met es : List Event} (hmet : Readable met)
    (hes : es = met ∨ ∃ content, es = met ++ [.text content]) :
    ¬Readable es ↔
      ∃ met content, es = met ++ [.text content] ∧ ¬ReadableAfter met (.text content) := by
  constructor
  · rcases hes with rfl | ⟨content, rfl⟩
    · exact fun h => absurd hmet h
    · rw [readable_concat_iff]
      exact fun h => ⟨met, content, rfl, fun hlast => h ⟨hmet, hlast⟩⟩
  · rintro ⟨earlier, content, rfl, hlast⟩ h
    exact hlast ((readable_concat_iff earlier _).mp h).2

/-- A feed is refused for a fault of its markup or for a value that does not resolve. The reader
sees to it that end tags match, but not that any element is closed: a feed that is cut off between
two pieces of markup is read as one that ends there. -/
theorem open_elements_unnoticed (address : String) :
    (∀ bytes, (∀ es, events bytes = .ok es → EndTagsMatch es) ∧
      (Refuses address bytes ↔ ∀ es, events bytes = .ok es → ¬Readable es)) ∧
    ∀ front rest ls, Glyph.ofBytes (front ++ rest) = Glyph.ofBytes front ++ Glyph.ofBytes rest →
      readFeed address (.bytes (front ++ rest)) = .ok ls →
      (Refuses address front ↔ events front = .error .unclosed ∨
        ∃ met content, events front = .ok (met ++ [.text content]) ∧
          ¬ReadableAfter met (.text content)) ∧
      ∀ ms, readFeed address (.bytes front) = .ok ms → ms <+: ls := by
  constructor
  · exact fun bytes => ⟨fun _ => endTagsMatch_events, refuses_iff_not_readable address bytes⟩
  · intro front rest ls hcut hwhole
    simp only [readFeed_eq_ok_iff, Body.bytes.injEq, exists_eq_left', parse_eq_ok_iff] at hwhole ⊢
    obtain ⟨_, hwhole, hls⟩ := hwhole
    obtain ⟨met, ⟨more, rfl⟩, hfront⟩ := exists_met_of_cut hcut hwhole
    obtain ⟨listed, hlisted, hle⟩ := ofEvents_append hls
    have hmet : Readable met := (isSome_ofEvents_iff met).mp (by rw [hlisted]; rfl)
    rw [refuses_iff_not_readable]
    rcases hfront with hunclosed | hread
    · simp [hunclosed]
    · obtain ⟨es, hes, hends⟩ :
          ∃ es, events front = .ok es ∧ (es = met ∨ ∃ content, es = met ++ [.text content]) := by
        rcases hread with hread | ⟨content, hread⟩
        · exact ⟨met, hread, Or.inl rfl⟩
        · exact ⟨_, hread, Or.inr ⟨content, rfl⟩⟩
      simp only [hes, Except.ok.injEq, forall_eq', not_readable_cut_iff hmet hends, reduceCtorEq,
        false_or, true_and]
      rintro ms ⟨_, rfl, hms⟩
      rcases hends with rfl | ⟨content, rfl⟩
      · exact Option.some.inj (hlisted.symm.trans hms) ▸ hle
      · exact Option.some.inj (hlisted.symm.trans (ofEvents_concat_text hms)) ▸ hle

def firstItem : List UInt8 :=
  "<feed><item><cpe vendor='Apache' product='Struts'>cpe:/a:apache:struts</cpe></item>"
    |>.toUTF8.data.toList

def secondItem : List UInt8 :=
  "<item><cpe vendor='NTP' product='ntp'>cpe:/a:ntp:ntp</cpe></item></feed>".toUTF8.data.toList

def struts : Listing := ⟨"Apache", "Struts", "cpe:/a:apache:struts"⟩

def ntp : Listing := ⟨"NTP", "ntp", "cpe:/a:ntp:ntp"⟩

theorem events_firstItem :
    ∃ es, events firstItem = .ok es ∧ openElements es = [Glyph.ofString "feed"] := by
  have hopen : (events firstItem).toOption.map openElements = some [Glyph.ofString "feed"] := by
    decide +kernel
  obtain ⟨es, hes, hnames⟩ := Option.map_eq_some_iff.mp hopen
  exact ⟨es, toOption_eq_some_iff.mp hes, hnames⟩

theorem readFeed_firstItem (address : String) :
    readFeed address (.bytes firstItem) = .ok [struts] :=
  readFeed_eq_ok_iff.mpr ⟨firstItem, rfl, by decide +kernel⟩

theorem open_elements_unnoticed_between_items :
    readFeed "http://feeds.test/" (.bytes (firstItem ++ secondItem)) = .ok [struts, ntp] ∧
      (∃ es, events firstItem = .ok es ∧ openElements es = [Glyph.ofString "feed"] ∧
        EndTagsMatch es) ∧
      readFeed "http://feeds.test/" (.bytes firstItem) = .ok [struts] ∧
      [struts] <+: [struts, ntp] := by
  obtain ⟨hrefuses, hcut⟩ := open_elements_unnoticed "http://feeds.test/"
  have hbytes : Glyph.ofBytes (firstItem ++ secondItem) =
      Glyph.ofBytes firstItem ++ Glyph.ofBytes secondItem := by decide +kernel
  have hwhole : readFeed "http://feeds.test/" (.bytes (firstItem ++ secondItem)) =
      .ok [struts, ntp] := readFeed_eq_ok_iff.mpr ⟨_, rfl, by decide +kernel⟩
  have hfirst := readFeed_firstItem "http://feeds.test/"
  obtain ⟨es, hes, hnames⟩ := events_firstItem
  exact ⟨hwhole, ⟨es, hes, hnames, (hrefuses firstItem).1 es hes⟩, hfirst,
    (hcut _ _ _ hbytes hwhole).2 _ hfirst⟩

/-- A feed in which an element is never closed need not be refused. -/
theorem not_refuses_open_elements :
    ¬∀ address bytes es, events bytes = .ok es → openElements es ≠ [] → Refuses address bytes := by
  intro h
  obtain ⟨es, hes, hnames⟩ := events_firstItem
  obtain ⟨reason, hrefused⟩ := h "http://feeds.test/" firstItem es hes (by simp [hnames])
  rw [readFeed_firstItem] at hrefused
  cases hrefused

end Fetcher

end PlatformCatalog
