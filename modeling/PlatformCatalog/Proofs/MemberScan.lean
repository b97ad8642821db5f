import Mathlib.Data.String.Basic
import Mathlib.Logic.Function.Iterate
import PlatformCatalog.Proofs.TextBytes
import PlatformCatalog.Store.Index

/-!
# Members as bytes

A member may be cut by a scan of its bytes instead of its characters. The
scan leaves a backslash and one byte behind at once, although the escaped
character may have more of them. The others are never mistaken for a
backslash or a number sign, so the scan stops where the characters say, and
in no text between the bytes of a character.
-/

set_option autoImplicit false

namespace PlatformCatalog

namespace Text

def bytesOf (cs : List Char) : List UInt8 := cs.flatMap String.utf8EncodeChar

theorem bytesOf_cons (c : Char) (cs : List Char) :
    bytesOf (c :: cs) = String.utf8EncodeChar c ++ bytesOf cs :=
  List.flatMap_cons

theorem bytesOf_append (cs ds : List Char) : bytesOf (cs ++ ds) = bytesOf cs ++ bytesOf ds :=
  List.flatMap_append

theorem length_bytesOf (cs : List Char) : (bytesOf cs).length = String.utf8Len cs := by
  induction cs with
  | nil => rfl
  | cons c cs ih =>
    rw [bytesOf_cons, List.length_append, String.length_utf8EncodeChar, ih, String.utf8Len_cons,
      Nat.add_comm]

end Text

namespace Product

open Text

def backslash : UInt8 := 0x5C

def numberSign : UInt8 := 0x23

/-- Where the scan of a member stands: before a byte, or over with the first byte of the two number
signs. -/
inductive Scan where
  | before (i : Nat)
  | over (found : Option Nat)
  deriving DecidableEq, Repr

def Scan.turn (bytes : List UInt8) : Scan → Scan
  | .before i =>
    match bytes[i]? with
    | none => .over none
    | some b =>
      if b = backslash then .before (i + 2)
      else if b = numberSign ∧ bytes[i + 1]? = some numberSign then .over (some i)
      else .before (i + 1)
  | .over found => .over found

/-- From a byte on the scan is over with what it finds, in as many turns as there are bytes and one
more. -/
def Finds (bytes : List UInt8) (i : Nat) (found : Option Nat) : Prop :=
  ∀ n, bytes.length - i < n → (Scan.turn bytes)^[n] (.before i) = .over found

section

variable {bytes : List UInt8} {i j : Nat} {found : Option Nat}

theorem iterate_turn_over (bytes : List UInt8) (found : Option Nat) (n : Nat) :
    (Scan.turn bytes)^[n] (.over found) = .over found :=
  Function.iterate_fixed rfl n

theorem finds_of_over (h : Scan.turn bytes (.before i) = .over found) : Finds bytes i found := by
  intro n hn
  obtain ⟨m, rfl⟩ := Nat.exists_eq_add_one_of_ne_zero (Nat.ne_zero_of_lt hn)
  rw [Function.iterate_succ_apply, h, iterate_turn_over]

theorem Finds.turn (hi : i < bytes.length) (hij : i < j)
    (h : Scan.turn bytes (.before i) = .before j) (hj : Finds bytes j found) :
    Finds bytes i found := by
  intro n hn
  obtain ⟨m, rfl⟩ := Nat.exists_eq_add_one_of_ne_zero (Nat.ne_zero_of_lt hn)
  rw [Function.iterate_succ_apply, h]
  exact hj m (by omega)

theorem finds_none (h : bytes.length ≤ i) : Finds bytes i none :=
  finds_of_over (by rw [Scan.turn, List.getElem?_eq_none h])

theorem finds_numberSigns (h : bytes[i]? = some numberSign)
    (hnext : bytes[i + 1]? = some numberSign) : Finds bytes i (some i) := by
  apply finds_of_over
  rw [Scan.turn, h]
  exact (if_neg (by decide)).trans (if_pos ⟨rfl, hnext⟩)

theorem Finds.backslash (h : bytes[i]? = some backslash) (hj : Finds bytes (i + 2) found) :
    Finds bytes i found := by
  obtain ⟨hi, _⟩ := List.getElem?_eq_some_iff.mp h
  apply hj.turn hi (by omega)
  rw [Scan.turn, h]
  exact if_pos rfl

theorem Finds.skip {b : UInt8} (h : bytes[i]? = some b) (hb : b ≠ Product.backslash)
    (hsign : b = numberSign → bytes[i + 1]? ≠ some numberSign)
    (hj : Finds bytes (i + 1) found) : Finds bytes i found := by
  obtain ⟨hi, _⟩ := List.getElem?_eq_some_iff.mp h
  apply hj.turn hi (by omega)
  rw [Scan.turn, h]
  exact (if_neg hb).trans (if_neg fun hsigns => hsign hsigns.1 hsigns.2)

theorem Finds.skipAll {before middle rest : List UInt8}
    (h : ∀ b ∈ middle, b ≠ Product.backslash ∧ b ≠ numberSign)
    (hrest : Finds (before ++ middle ++ rest) (before ++ middle).length found) :
    Finds (before ++ middle ++ rest) before.length found := by
  induction middle generalizing before with
  | nil => simpa using hrest
  | cons b middle ih =>
    obtain ⟨⟨hescape, hsign⟩, hmiddle⟩ := List.forall_mem_cons.mp h
    have hbyte : (before ++ b :: middle ++ rest)[before.length]? = some b := by simp
    have hnext := @ih (before ++ [b]) hmiddle (by simpa using hrest)
    apply Finds.skip hbyte hescape fun heq => absurd heq hsign
    simpa using hnext

end

theorem backslash_eq : backslash = UInt8.ofNat '\\'.toNat := rfl

theorem numberSign_eq : numberSign = UInt8.ofNat '#'.toNat := rfl

theorem ne_of_le_toNat {b : UInt8} (h : 0x80 ≤ b.toNat) : b ≠ backslash ∧ b ≠ numberSign := by
  constructor <;> rintro rfl <;> revert h <;> decide

theorem exists_utf8EncodeChar_eq_cons (c : Char) :
    ∃ b more, String.utf8EncodeChar c = b :: more ∧
      ∀ d ∈ more, d ≠ backslash ∧ d ≠ numberSign := by
  rcases utf8EncodeChar_cases c with ⟨hsingle, _⟩ | hall
  · exact ⟨_, [], hsingle, by simp⟩
  · obtain ⟨b, more, hbytes⟩ := List.exists_cons_of_ne_nil (String.utf8EncodeChar_ne_nil (c := c))
    rw [hbytes] at hall
    exact ⟨b, more, hbytes, fun d hd => ne_of_le_toNat (hall d (List.mem_cons_of_mem b hd))⟩

theorem head_bytesOf {cs : List Char} (h : (bytesOf cs)[0]? = some numberSign) :
    ∃ rest, cs = '#' :: rest := by
  cases cs with
  | nil => cases h
  | cons c rest =>
    obtain ⟨b, more, hbytes, _⟩ := exists_utf8EncodeChar_eq_cons c
    rw [bytesOf_cons, hbytes] at h
    have hb : b = numberSign := by simpa using h
    have hmem : UInt8.ofNat '#'.toNat ∈ String.utf8EncodeChar c := by
      rw [hbytes, ← numberSign_eq, hb]
      exact List.mem_cons_self
    exact ⟨rest, by rw [eq_of_mem_utf8EncodeChar (by decide) hmem]⟩

theorem Finds.char {before : List UInt8} {c : Char} {rest : List Char} {found : Option Nat}
    (hescape : c ≠ '\\') (hsigns : ∀ more, c = '#' → rest ≠ '#' :: more)
    (h : Finds (before ++ bytesOf (c :: rest)) (before ++ String.utf8EncodeChar c).length found) :
    Finds (before ++ bytesOf (c :: rest)) before.length found := by
  by_cases hsign : c = '#'
  · subst hsign
    have hbytes : before ++ bytesOf ('#' :: rest) = before ++ numberSign :: bytesOf rest := rfl
    have hlength : (before ++ String.utf8EncodeChar '#').length = before.length + 1 := by
      rw [List.length_append]
      rfl
    rw [hbytes, hlength] at h
    rw [hbytes]
    apply Finds.skip (b := numberSign) (by simp) (by decide) ?_ h
    intro _ hnext
    rw [List.getElem?_append_right (by omega), Nat.add_sub_cancel_left, List.getElem?_cons_succ]
      at hnext
    obtain ⟨more, hrest⟩ := head_bytesOf hnext
    exact hsigns more rfl hrest
  · rw [bytesOf_cons, ← List.append_assoc] at h ⊢
    refine Finds.skipAll (fun b hb => ⟨?_, ?_⟩) h
    · rintro rfl
      exact hescape (eq_of_mem_utf8EncodeChar (by decide) hb)
    · rintro rfl
      exact hsign (eq_of_mem_utf8EncodeChar (by decide) hb)

theorem Finds.escape {before : List UInt8} {c : Char} {rest : List Char} {found : Option Nat}
    (h : Finds (before ++ bytesOf ('\\' :: c :: rest))
      (before ++ bytesOf ['\\', c]).length found) :
    Finds (before ++ bytesOf ('\\' :: c :: rest)) before.length found := by
  obtain ⟨b, more, hbytes, hmore⟩ := exists_utf8EncodeChar_eq_cons c
  have hpair : bytesOf ['\\', c] = [Product.backslash, b] ++ more := by
    rw [bytesOf_cons, bytesOf_cons, hbytes]
    simp [bytesOf, backslash_eq]
    rfl
  have hwhole : before ++ bytesOf ('\\' :: c :: rest) =
      before ++ [Product.backslash, b] ++ more ++ bytesOf rest := by
    rw [show '\\' :: c :: rest = ['\\', c] ++ rest from rfl, bytesOf_append, hpair]
    simp
  rw [hpair, ← List.append_assoc] at h
  rw [hwhole] at h ⊢
  have hnext := Finds.skipAll hmore h
  apply Finds.backslash (by simp)
  simpa using hnext

theorem finds_splitMember (before : List UInt8) (cs : List Char) :
    Finds (before ++ bytesOf cs) before.length
      ((splitMember cs).map fun halves => (before ++ bytesOf halves.1).length) := by
  induction cs using splitMember.induct generalizing before with
  | case1 => exact finds_none (by simp [bytesOf])
  | case2 =>
    have hbytes : before ++ bytesOf ['\\'] = before ++ [Product.backslash] := rfl
    rw [hbytes]
    exact Finds.backslash (by simp) (finds_none (by simp))
  | case3 c rest ih =>
    have hrest := ih (before ++ bytesOf ['\\', c])
    have hbytes : before ++ bytesOf ('\\' :: c :: rest) =
        before ++ bytesOf ['\\', c] ++ bytesOf rest := by
      rw [List.append_assoc, ← bytesOf_append]
      rfl
    have hfound : (splitMember ('\\' :: c :: rest)).map (fun h => (before ++ bytesOf h.1).length) =
        (splitMember rest).map fun h => (before ++ bytesOf ['\\', c] ++ bytesOf h.1).length := by
      rw [splitMember, Option.map_map]
      exact congrArg (Option.map · _) (funext fun h => by simp [bytesOf])
    apply Finds.escape
    rw [hfound, hbytes]
    exact hrest
  | case4 rest =>
    have hbytes : before ++ bytesOf ('#' :: '#' :: rest) =
        before ++ numberSign :: numberSign :: bytesOf rest := rfl
    rw [hbytes, splitMember, Option.map_some]
    have hfound := @finds_numberSigns (before ++ numberSign :: numberSign :: bytesOf rest)
      before.length (by simp) (by simp)
    simpa [bytesOf] using hfound
  | case5 c rest hlast hpair hsigns ih =>
    have hescape : c ≠ '\\' := by
      intro hc
      cases rest with
      | nil => exact hlast hc rfl
      | cons d rest => exact hpair d rest hc rfl
    have hrest := ih (before ++ String.utf8EncodeChar c)
    have hfound : (splitMember (c :: rest)).map (fun h => (before ++ bytesOf h.1).length) =
        (splitMember rest).map fun h =>
          (before ++ String.utf8EncodeChar c ++ bytesOf h.1).length := by
      rw [splitMember.eq_5 c rest hlast hpair hsigns, Option.map_map]
      exact congrArg (Option.map · _) (funext fun h => by simp [bytesOf])
    apply Finds.char hescape fun more hc hmore => hsigns more hc hmore
    rw [hfound, bytesOf_cons, ← List.append_assoc]
    exact hrest

def sliceAt (s : String) (i : Nat) : Product where
  vendor := String.Pos.Raw.extract s 0 ⟨i⟩
  product := String.Pos.Raw.extract s ⟨i + 2⟩ s.rawEndPos

/-- The text can be cut before and behind the two bytes, for no character lies across. -/
def IsCut (s : String) (i : Nat) : Prop :=
  String.Pos.Raw.IsValid s ⟨i⟩ ∧ String.Pos.Raw.IsValid s ⟨i + 2⟩

theorem append_of_splitMember {cs v p : List Char} (h : splitMember cs = some (v, p)) :
    cs = v ++ '#' :: '#' :: p := by
  induction cs using splitMember.induct generalizing v with
  | case1 | case2 => cases h
  | case3 c rest ih =>
    rw [splitMember] at h
    obtain ⟨⟨w, q⟩, hrest, heq⟩ := Option.map_eq_some_iff.mp h
    obtain ⟨rfl, rfl⟩ := Prod.mk.inj heq
    rw [ih hrest]
    rfl
  | case4 rest =>
    obtain ⟨rfl, rfl⟩ := Prod.mk.inj (Option.some.inj h)
    rfl
  | case5 c rest hlast hpair hsigns ih =>
    rw [splitMember.eq_5 c rest hlast hpair hsigns] at h
    obtain ⟨⟨w, q⟩, hrest, heq⟩ := Option.map_eq_some_iff.mp h
    obtain ⟨rfl, rfl⟩ := Prod.mk.inj heq
    rw [ih hrest]
    rfl

theorem member_of_ofMember? {s : String} {p : Product} (h : ofMember? s = some p) :
    p.member = s := by
  obtain ⟨⟨v, w⟩, hsplit, rfl⟩ := Option.map_eq_some_iff.mp h
  rw [← String.toList_inj, append_of_splitMember hsplit]
  simp [member]

theorem isCut_member (p : Product) : IsCut p.member p.vendor.utf8ByteSize := by
  constructor
  · rw [String.Pos.Raw.isValid_iff_exists_append]
    exact ⟨p.vendor, "##" ++ p.product, by rw [member, String.append_assoc], rfl⟩
  · rw [String.Pos.Raw.isValid_iff_exists_append]
    refine ⟨p.vendor ++ "##", p.product, rfl, ?_⟩
    rw [String.rawEndPos, String.utf8ByteSize_append]
    rfl

theorem sliceAt_member (p : Product) : sliceAt p.member p.vendor.utf8ByteSize = p := by
  have hmember : p.member = String.ofList (p.vendor.toList ++ ['#', '#'] ++ p.product.toList) := by
    rw [← String.toList_inj]
    simp [member]
  have hend : p.member.rawEndPos =
      ⟨String.utf8Len (p.vendor.toList ++ ['#', '#']) + String.utf8Len p.product.toList⟩ := by
    rw [hmember, String.rawEndPos_ofList, String.utf8Len_append]
  have hsigns : p.vendor.utf8ByteSize + 2 = String.utf8Len (p.vendor.toList ++ ['#', '#']) := by
    rw [String.utf8Len_append, String.utf8Len_toList]
    rfl
  have hvendor := String.extract_of_valid [] p.vendor.toList (['#', '#'] ++ p.product.toList)
  have hproduct := String.extract_of_valid (p.vendor.toList ++ ['#', '#']) p.product.toList []
  rw [List.nil_append, ← List.append_assoc, ← hmember, String.utf8Len_nil, Nat.zero_add,
    String.utf8Len_toList, String.ofList_toList] at hvendor
  rw [List.append_nil, ← hmember, ← hend, ← hsigns, String.ofList_toList] at hproduct
  rw [sliceAt, hproduct]
  exact congrArg (fun v => Product.mk v p.product) hvendor

/-- The scan of a text is over after as many turns as it has bytes and one more. What it finds is
where the text is cut. The cut goes through no character, and there are number signs between the
two parts. -/
theorem exists_scan (s : String) : ∃ found,
    (Scan.turn s.toUTF8.data.toList)^[s.utf8ByteSize + 1] (.before 0) = .over found ∧
      ofMember? s = found.map (sliceAt s) ∧
      ∀ i ∈ found, IsCut s i ∧ (sliceAt s i).vendor ++ "##" ++ (sliceAt s i).product = s := by
  have hscan := finds_splitMember [] s.toList (s.utf8ByteSize + 1)
  rw [List.nil_append, length_bytesOf, String.utf8Len_toList, bytesOf, ← toList_toUTF8] at hscan
  cases hcut : ofMember? s with
  | none =>
    have hsplit : splitMember s.toList = none := Option.map_eq_none_iff.mp hcut
    rw [hsplit] at hscan
    exact ⟨none, hscan (by simp), rfl, by simp⟩
  | some p =>
    obtain ⟨⟨v, w⟩, hsplit, rfl⟩ := Option.map_eq_some_iff.mp hcut
    have hbyte : ([] ++ bytesOf v).length = (String.ofList v).utf8ByteSize := by
      rw [List.nil_append, length_bytesOf, String.utf8ByteSize_ofList]
    have hmember := member_of_ofMember? hcut
    rw [hsplit, Option.map_some, hbyte] at hscan
    refine ⟨some (String.ofList v).utf8ByteSize, hscan (by simp), ?_, ?_⟩
    · rw [Option.map_some, ← hmember, sliceAt_member ⟨String.ofList v, String.ofList w⟩]
    · rintro i ⟨⟩
      rw [← hmember]
      refine ⟨isCut_member ⟨String.ofList v, String.ofList w⟩, ?_⟩
      rw [sliceAt_member ⟨String.ofList v, String.ofList w⟩, member]

end Product

end PlatformCatalog
