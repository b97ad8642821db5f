import PlatformCatalog.Name.Uri

/-!
# Names that are read

Both readers give one attribute after the other the value of its component,
and check that the attribute takes it. So what holds of the values that a
reader yields holds of the attributes of a name.
-/

set_option autoImplicit false

namespace PlatformCatalog

def Name.Each (P : Value → Prop) (n : Name) : Prop :=
  ∀ a, P (n.get a) ∧ checkValue a (n.get a) = .ok ()

section

variable {P : Value → Prop} {n m : Name} {s : String}

theorem Name.each_empty (hany : P .any) : Name.Each P {} := by
  intro a
  cases a <;> exact ⟨hany, rfl⟩

theorem bind_eq_ok_iff {ε α β : Type} {x : Except ε α} {f : α → Except ε β} {y : β} :
    x >>= f = .ok y ↔ ∃ a, x = .ok a ∧ f a = .ok y := by
  cases x with
  | error e => simp [bind, Except.bind]
  | ok a => simp [bind, Except.bind]

theorem toOption_eq_some_iff {ε α : Type} {x : Except ε α} {a : α} :
    x.toOption = some a ↔ x = .ok a := by
  cases x <;> simp [Except.toOption]

theorem Name.set_eq_ok_iff {a : Attribute} {v : Value} :
    n.set a v = .ok m ↔ checkValue a v = .ok () ∧ n.put a v = m := by
  rw [Name.set]
  split <;> simp_all

theorem Name.Each.put (hn : n.Each P) {a : Attribute} {v : Value} (hv : P v)
    (hcheck : checkValue a v = .ok ()) : (n.put a v).Each P := by
  intro b
  rw [Name.get_put]
  split
  · next hb => exact ⟨hv, hb ▸ hcheck⟩
  · exact hn b

/-- The name with the attributes replaced, in order, by what `read` makes of the components. -/
def fillWith (read : List Char → Except NameError Value) :
    List Attribute → List (List Char) → Name → Except NameError Name
  | a :: as, c :: cs, n => do
    let v ← read c
    let n ← n.set a v
    fillWith read as cs n
  | _, _, n => .ok n

theorem Formatted.fill_eq (as : List Attribute) (cs : List (List Char)) (n : Name) :
    Formatted.fill as cs n = fillWith Formatted.readValue as cs n := by
  fun_induction fillWith Formatted.readValue as cs n <;> simp_all [Formatted.fill]

theorem Uri.fill_eq (as : List Attribute) (cs : List (List Char)) (n : Name) :
    Uri.fill as cs n = fillWith Uri.readValue as cs n := by
  fun_induction fillWith Uri.readValue as cs n <;> simp_all [Uri.fill]

def Name.map (f : Value → Value) (n : Name) : Name where
  part := f n.part
  vendor := f n.vendor
  product := f n.product
  version := f n.version
  update := f n.update
  edition := f n.edition
  language := f n.language
  softwareEdition := f n.softwareEdition
  targetSoftware := f n.targetSoftware
  targetHardware := f n.targetHardware
  other := f n.other

theorem Name.get_map (f : Value → Value) (n : Name) (a : Attribute) :
    (n.map f).get a = f (n.get a) := by
  cases a <;> rfl

def Name.putAll (v : Attribute → Value) (as : List Attribute) (n : Name) : Name :=
  as.foldl (fun n a => n.put a (v a)) n

theorem Name.get_putAll (v : Attribute → Value) (as : List Attribute) (n : Name) (b : Attribute) :
    (n.putAll v as).get b = if b ∈ as then v b else n.get b := by
  induction as generalizing n with
  | nil => simp [putAll]
  | cons a as ih =>
    rw [putAll, List.foldl_cons, ← putAll, ih, Name.get_put]
    by_cases hb : b ∈ as
    · simp [hb]
    · by_cases ha : b = a <;> simp [ha, hb]

theorem Name.putAll_append (v : Attribute → Value) (as bs : List Attribute) (n : Name) :
    n.putAll v (as ++ bs) = (n.putAll v as).putAll v bs :=
  List.foldl_append

theorem fillWith_map {read : List Char → Except NameError Value} {text : Attribute → List Char}
    {v : Attribute → Value} {as : List Attribute}
    (h : ∀ a ∈ as, read (text a) = .ok (v a) ∧ checkValue a (v a) = .ok ()) (n : Name) :
    fillWith read as (as.map text) n = .ok (n.putAll v as) := by
  induction as generalizing n with
  | nil => rfl
  | cons a as ih =>
    obtain ⟨hread, hcheck⟩ := h a (by simp)
    have hrest := ih (fun b hb => h b (by simp [hb])) (n.put a (v a))
    exact bind_eq_ok_iff.mpr ⟨v a, hread,
      bind_eq_ok_iff.mpr ⟨_, Name.set_eq_ok_iff.mpr ⟨hcheck, rfl⟩, hrest⟩⟩

theorem Name.Each.fillWith {read : List Char → Except NameError Value} (hn : n.Each P)
    (hread : ∀ c v, read c = .ok v → P v) {as : List Attribute} {cs : List (List Char)}
    (h : fillWith read as cs n = .ok m) : m.Each P := by
  induction as generalizing cs n with
  | nil =>
    cases h
    exact hn
  | cons a as ih =>
    cases cs with
    | nil =>
      cases h
      exact hn
    | cons c cs =>
      obtain ⟨v, hv, h⟩ := bind_eq_ok_iff.mp h
      obtain ⟨next, hnext, hrest⟩ := bind_eq_ok_iff.mp h
      obtain ⟨hcheck, rfl⟩ := Name.set_eq_ok_iff.mp hnext
      exact ih (hn.put (hread c v hv) hcheck) hrest

theorem Name.Each.readComponent (hn : n.Each P) (hread : ∀ c v, Uri.readValue c = .ok v → P v)
    {a : Attribute} {component : List Char} (h : Uri.readComponent a component n = .ok m) :
    m.Each P := by
  rw [Uri.readComponent] at h
  split at h
  · simp only [Uri.unpack] at h
    split at h
    · rw [Uri.fill_eq] at h
      exact hn.fillWith hread h
    · cases h
  · rw [Uri.fill_eq] at h
    exact hn.fillWith hread h

theorem Name.Each.readComponents (hn : n.Each P) (hread : ∀ c v, Uri.readValue c = .ok v → P v)
    {as : List Attribute} {cs : List (List Char)} (h : Uri.readComponents as cs n = .ok m) :
    m.Each P := by
  induction as generalizing cs n with
  | nil =>
    cases h
    exact hn
  | cons a as ih =>
    obtain ⟨next, hnext, hrest⟩ := bind_eq_ok_iff.mp h
    exact ih (hn.readComponent hread hnext) hrest

theorem Formatted.each_read (hany : P .any) (hread : ∀ c v, Formatted.readValue c = .ok v → P v)
    (h : Formatted.read s = .ok n) : n.Each P := by
  rw [Formatted.read] at h
  split at h
  · cases h
  · simp only at h
    split at h
    · rw [Formatted.fill_eq] at h
      exact (Name.each_empty hany).fillWith hread h
    · cases h

theorem Uri.each_read (hany : P .any) (hread : ∀ c v, Uri.readValue c = .ok v → P v)
    (h : Uri.read s = .ok n) : n.Each P := by
  rw [Uri.read] at h
  split at h
  · cases h
  · simp only at h
    split at h
    · exact (Name.each_empty hany).readComponents hread h
    · cases h

theorem Name.each_parse (hany : P .any) (hformatted : ∀ c v, Formatted.readValue c = .ok v → P v)
    (huri : ∀ c v, Uri.readValue c = .ok v → P v) (h : Name.parse s = .ok n) : n.Each P := by
  rw [Name.parse] at h
  split at h
  · exact Formatted.each_read hany hformatted h
  · split at h
    · exact Uri.each_read hany huri h
    · cases h

end

end PlatformCatalog
