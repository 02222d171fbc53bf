import Ikofi.Lib.Limit
import Ikofi.Text

/-!
# The addresses of the device

The list of addresses is sorted as texts. A dot is smaller than every digit and a
colon is greater, so an IPv4 address is the smaller one as long as the digits in front
of its first dot agree with those in front of the first colon. Where they differ, the
smaller digit decides, whichever family it belongs to.
-/

namespace Ikofi.Screen

open Limit

/-- The scope of an IPv6 address names an interface. -/
inductive InetAddress
  | v4 (a b c d : UInt8)
  | v6 (groups : Vector UInt16 8) (scope : Option JString)
  deriving DecidableEq, Repr

namespace InetAddress

def isLoopbackAddress : InetAddress → Bool
  | .v4 a _ _ _ => a == 127
  | .v6 groups _ => groups.toList == [0, 0, 0, 0, 0, 0, 0, 1]

def isLinkLocalAddress : InetAddress → Bool
  | .v4 a b _ _ => a == 169 && b == 254
  | .v6 groups _ => groups[0] &&& 0xFFC0 == 0xFE80

end InetAddress

def dot : UInt16 := 46

def colon : UInt16 := 58

/-- A number without leading zeros, in lower case. -/
def numeral (base n : Nat) : JString := utf16Encode (Nat.toDigits base n)

def dotted (a b c d : UInt8) : JString :=
  numeral 10 a.toNat ++ dot :: (numeral 10 b.toNat ++ dot ::
    (numeral 10 c.toNat ++ dot :: numeral 10 d.toNat))

def colons (groups : List UInt16) : JString :=
  List.intercalate [colon] (groups.map fun g => numeral 16 g.toNat)

def zone (scope : Option JString) : JString :=
  match scope with
  | none => []
  | some id => 37 :: id

/-- The texts of an address: dotted decimal, or groups in hexadecimal, where two colons
may stand for a run of zeros. -/
inductive HostText : InetAddress → JString → Prop
  | dotted {a b c d : UInt8} : HostText (.v4 a b c d) (dotted a b c d)
  | full {groups : Vector UInt16 8} {scope : Option JString} :
      HostText (.v6 groups scope) (colons groups.toList ++ zone scope)
  | compressed {groups : Vector UInt16 8} {scope : Option JString} {a b : List UInt16} {k : Nat} :
      groups.toList = a ++ List.replicate (k + 1) 0 ++ b →
      HostText (.v6 groups scope) (colons a ++ colon :: colon :: (colons b ++ zone scope))

/-- The addresses that are listed, before they are sorted. There are none if the
interfaces cannot be enumerated. -/
def hostTexts (getHostAddress : InetAddress → Option JString)
    (interfaces : Option (List (List InetAddress))) : List JString :=
  ((interfaces.getD []).flatten.filter fun ina =>
    ! ina.isLoopbackAddress && ! ina.isLinkLocalAddress).filterMap getHostAddress

/-- A negative limit is an exception, which ends in an empty list as well. -/
def getHostAddresses (getHostAddress : InetAddress → Option JString)
    (interfaces : Option (List (List InetAddress))) (limit : Int32) : List JString :=
  if limit < 0 then []
  else ((hostTexts getHostAddress interfaces).insertionSort (· ≤ ·)).take limit.toInt.toNat

def isIPv4 (s : JString) : Bool := ! s.contains colon

/-- No IPv6 address precedes an IPv4 address, and one of these is left out only if the
list holds as many as the limit allows. -/
def IPv4First (getHostAddress : InetAddress → Option JString)
    (interfaces : Option (List (List InetAddress))) (limit : Int32) : Prop :=
  (getHostAddresses getHostAddress interfaces limit).Pairwise
    (fun s t => isIPv4 t = true → isIPv4 s = true) ∧
  ∀ s, isIPv4 s = true →
    (getHostAddresses getHostAddress interfaces limit).count s <
      (hostTexts getHostAddress interfaces).count s →
    limit.toInt ≤ (getHostAddresses getHostAddress interfaces limit).countP isIPv4

/-- The digits in front: those of the first octet, or of the first group if it is
written. -/
def leading (s : JString) : JString := s.takeWhile fun u => u != dot && u != colon

/-- In the first place where both have a digit and the two differ, the smaller one is in
the first text. -/
def smaller : JString → JString → Bool
  | u :: s, v :: t => decide (u < v) || (u == v && smaller s t)
  | _, _ => false

/-- The leading digits put every IPv4 address in front of each IPv6 address, or as many
as the limit allows. -/
def DigitsAgree (texts : List JString) (limit : Int32) : Prop :=
  ∀ s ∈ texts, isIPv4 s = false →
    (∀ t ∈ texts, isIPv4 t = true → smaller (leading s) (leading t) = false) ∨
    limit.toInt ≤ texts.countP fun t => isIPv4 t && ! smaller (leading s) (leading t)

instance (texts : List JString) (limit : Int32) : Decidable (DigitsAgree texts limit) :=
  inferInstanceAs (Decidable (∀ s ∈ texts, _ → _ ∨ _))

def isDigit (u : UInt16) : Bool := 48 ≤ u && u ≤ 57

def isHexDigit (u : UInt16) : Bool := isDigit u || (97 ≤ u && u ≤ 102)

section
variable {s t rest : JString} {u : UInt16}

theorem mem_toDigits {b n : Nat} {c : Char} (hb : 1 < b) (hc : c ∈ Nat.toDigits b n) :
    ∃ d < b, c = d.digitChar := by
  induction n using Nat.strong_induction_on with
  | _ n ih =>
    rw [Nat.toDigits_eq_if hb] at hc
    split at hc
    · rename_i small
      exact ⟨n, small, List.mem_singleton.mp hc⟩
    · rename_i large
      rcases List.mem_append.mp hc with hc | hc
      · exact ih (n / b) (Nat.div_lt_self (by omega) hb) hc
      · exact ⟨n % b, Nat.mod_lt _ (by omega), List.mem_singleton.mp hc⟩

theorem isHexDigit_numeral {n : Nat} (hu : u ∈ numeral 16 n) : isHexDigit u = true := by
  obtain ⟨c, hc, hu⟩ := List.mem_flatMap.mp hu
  obtain ⟨d, small, rfl⟩ := mem_toDigits (by decide) hc
  have all : ∀ d < 16, (utf16EncodeChar d.digitChar).all isHexDigit = true := by decide
  exact List.all_eq_true.mp (all d small) u hu

theorem isDigit_numeral {n : Nat} (hu : u ∈ numeral 10 n) : isDigit u = true := by
  obtain ⟨c, hc, hu⟩ := List.mem_flatMap.mp hu
  obtain ⟨d, small, rfl⟩ := mem_toDigits (by decide) hc
  have all : ∀ d < 10, (utf16EncodeChar d.digitChar).all isDigit = true := by decide
  exact List.all_eq_true.mp (all d small) u hu

theorem dot_lt (h : isHexDigit u = true) : dot < u := by
  simp only [isHexDigit, isDigit, dot, Bool.or_eq_true, Bool.and_eq_true, decide_eq_true_eq,
    UInt16.le_iff_toNat_le, UInt16.lt_iff_toNat_lt, UInt16.reduceToNat] at h ⊢
  omega

theorem lt_colon (h : isDigit u = true) : u < colon := by
  simp only [isDigit, colon, Bool.and_eq_true, decide_eq_true_eq, UInt16.le_iff_toNat_le,
    UInt16.lt_iff_toNat_lt, UInt16.reduceToNat] at h ⊢
  omega

/-- The order of two texts is the order of their leading digits. -/
theorem dotted_le_iff {a b : JString} (hs : ∀ u ∈ s, isDigit u = true)
    (ht : ∀ u ∈ t, isHexDigit u = true) :
    s ++ dot :: a ≤ t ++ colon :: b ↔ smaller t s = false := by
  induction s generalizing t with
  | nil =>
    -- no digit is left, and the dot is smaller than whatever follows
    cases t with
    | nil => exact iff_of_true (List.cons_le_cons_iff.mpr (Or.inl (by decide))) rfl
    | cons v t =>
      have first := dot_lt (ht v List.mem_cons_self)
      exact iff_of_true (List.cons_le_cons_iff.mpr (Or.inl first)) rfl
  | cons u s ih =>
    rw [List.forall_mem_cons] at hs
    cases t with
    | nil => exact iff_of_true (List.cons_le_cons_iff.mpr (Or.inl (lt_colon hs.1))) rfl
    | cons v t =>
      rw [List.forall_mem_cons] at ht
      rw [List.cons_append, List.cons_append, List.cons_le_cons_iff, smaller, ih hs.2 ht.2,
        Bool.or_eq_false_iff, decide_eq_false_iff_not, Bool.and_eq_false_iff, beq_eq_false_iff_ne,
        UInt16.lt_iff_toNat_lt, UInt16.lt_iff_toNat_lt, ← UInt16.toNat_inj, ne_eq,
        ← UInt16.toNat_inj]
      cases smaller t s with
      | false =>
        simp only [and_true, or_true]
        omega
      | true =>
        simp only [Bool.true_eq_false, and_false, or_false]
        omega

theorem leading_append {d : UInt16} (hs : ∀ u ∈ s, isHexDigit u = true)
    (hd : d = dot ∨ d = colon) : leading (s ++ d :: rest) = s := by
  have digits : ∀ u ∈ s, (u != dot && u != colon) = true := by
    intro u hu
    have other (v : UInt16) (hv : isHexDigit v = false) : u ≠ v := by
      rintro rfl
      rw [hs u hu] at hv
      cases hv
    simp [other dot (by decide), other colon (by decide)]
  have stop : ¬ (d != dot && d != colon) = true := by
    rcases hd with rfl | rfl <;> decide
  rw [leading, List.takeWhile_append_of_pos digits, List.takeWhile_cons, if_neg stop,
    List.append_nil]

end

section
variable {x y : InetAddress} {s t : JString}

/-- Decimal digits, a dot, and no colon. -/
theorem HostText.v4_shape {a b c d : UInt8} (h : HostText (.v4 a b c d) s) :
    ∃ digits rest, s = digits ++ dot :: rest ∧ (∀ u ∈ digits, isDigit u = true) ∧
      isIPv4 s = true := by
  cases h
  refine ⟨_, _, rfl, fun u => isDigit_numeral, ?_⟩
  have plain (n : Nat) : colon ∉ numeral 10 n := by
    intro hc
    exact absurd (isDigit_numeral hc) (by decide)
  have other : colon ≠ dot := by decide
  simp [isIPv4, Screen.dotted, plain, other]

/-- Hexadecimal digits, or none, and a colon. -/
theorem HostText.v6_shape {groups : Vector UInt16 8} {scope : Option JString}
    (h : HostText (.v6 groups scope) s) :
    ∃ digits rest, s = digits ++ colon :: rest ∧ ∀ u ∈ digits, isHexDigit u = true := by
  have first (g g' : UInt16) (gs : List UInt16) :
      colons (g :: g' :: gs) = numeral 16 g.toNat ++ colon :: colons (g' :: gs) := by
    simp [colons, List.intercalate]
  cases h with
  | full =>
    have length : groups.toList.length = 8 := groups.length_toList
    match groups.toList, length with
    | g :: g' :: gs, _ =>
      exact ⟨_, _, by rw [first, List.append_assoc]; rfl, fun u => isHexDigit_numeral⟩
  | @compressed _ _ a b k cut =>
    match a with
    | [] => exact ⟨[], _, rfl, by simp⟩
    | [g] =>
      have one : colons [g] = numeral 16 g.toNat := by simp [colons, List.intercalate]
      exact ⟨_, _, by rw [one], fun u => isHexDigit_numeral⟩
    | g :: g' :: a =>
      exact ⟨_, _, by rw [first, List.append_assoc]; rfl, fun u => isHexDigit_numeral⟩

/-- An IPv4 address is sorted in front of an IPv6 address unless the digits say otherwise. -/
theorem hostText_le_iff (hs : HostText x s) (ht : HostText y t) (v6 : isIPv4 s = false)
    (v4 : isIPv4 t = true) : t ≤ s ↔ smaller (leading s) (leading t) = false := by
  cases x with
  | v4 a b c d =>
    obtain ⟨_, _, -, -, own⟩ := hs.v4_shape
    rw [own] at v6
    cases v6
  | v6 groups scope =>
    obtain ⟨digits, rest, rfl, hex⟩ := hs.v6_shape
    cases y with
    | v6 groups' scope' =>
      obtain ⟨_, _, rfl, -⟩ := ht.v6_shape
      simp [isIPv4] at v4
    | v4 a b c d =>
      obtain ⟨digits', rest', rfl, decimal, -⟩ := ht.v4_shape
      have hex' : ∀ u ∈ digits', isHexDigit u = true := fun u hu => by
        rw [isHexDigit, decimal u hu, Bool.true_or]
      rw [leading_append hex (Or.inr rfl), leading_append hex' (Or.inl rfl),
        dotted_le_iff decimal hex]

end

section
variable {getHostAddress : InetAddress → Option JString}
  {interfaces : Option (List (List InetAddress))} {limit : Int32} {s : JString}

theorem hostText_of_mem (documented : ∀ x, ∃ s, getHostAddress x = some s ∧ HostText x s)
    (hs : s ∈ hostTexts getHostAddress interfaces) : ∃ x, HostText x s := by
  obtain ⟨x, -, hx⟩ := List.mem_filterMap.mp hs
  obtain ⟨t, ht, text⟩ := documented x
  rw [hx] at ht
  cases ht
  exact ⟨x, text⟩

/-- Being sorted behind the IPv4 addresses, as the digits tell it. -/
theorem behind_iff_digitsAgree
    (documented : ∀ x, ∃ s, getHostAddress x = some s ∧ HostText x s) :
    Behind (· ≤ ·) isIPv4 (hostTexts getHostAddress interfaces) limit.toInt.toNat ↔
      DigitsAgree (hostTexts getHostAddress interfaces) limit := by
  unfold Behind DigitsAgree
  refine forall₃_congr fun s hs v6 => ?_
  obtain ⟨x, hx⟩ := hostText_of_mem documented hs
  have order : ∀ t ∈ hostTexts getHostAddress interfaces, isIPv4 t = true →
      (t ≤ s ↔ smaller (leading s) (leading t) = false) := by
    intro t ht v4
    obtain ⟨y, hy⟩ := hostText_of_mem documented ht
    exact hostText_le_iff hx hy v6 v4
  have same : (hostTexts getHostAddress interfaces).countP
        (fun t => isIPv4 t && decide (t ≤ s)) =
      (hostTexts getHostAddress interfaces).countP
        (fun t => isIPv4 t && ! smaller (leading s) (leading t)) := by
    refine List.countP_congr fun t ht => ?_
    rw [Bool.and_eq_true, Bool.and_eq_true, decide_eq_true_eq, Bool.not_eq_true']
    exact and_congr_right fun v4 => order t ht v4
  rw [same]
  refine or_congr (forall₃_congr order) ?_
  rw [Int.toNat_le]

/-- IPv4 addresses come first exactly if the leading digits agree with that. -/
theorem ipv4_first_iff (documented : ∀ x, ∃ s, getHostAddress x = some s ∧ HostText x s) :
    IPv4First getHostAddress interfaces limit ↔
      DigitsAgree (hostTexts getHostAddress interfaces) limit := by
  by_cases negative : limit < 0
  · have below : limit.toInt < 0 := Int32.lt_iff_toInt_lt.mp negative
    refine iff_of_true ?_ fun _ _ _ => Or.inr (by omega)
    unfold IPv4First getHostAddresses
    rw [if_pos negative]
    exact ⟨.nil, fun _ _ _ => Int.le_of_lt below⟩
  · have sorted := List.pairwise_insertionSort (· ≤ ·) (hostTexts getHostAddress interfaces)
    have perm := List.perm_insertionSort (· ≤ ·) (hostTexts getHostAddress interfaces)
    rw [← behind_iff_digitsAgree documented, ← Behind.perm perm, ← first_iff_behind sorted]
    unfold IPv4First First getHostAddresses
    rw [if_neg negative]
    simp only [perm.count_eq, Int.toNat_le]

end

/-- The uncompressed texts. -/
def uncompressed : InetAddress → Option JString
  | .v4 a b c d => some (dotted a b c d)
  | .v6 groups scope => some (colons groups.toList ++ zone scope)

theorem uncompressed_documented (x : InetAddress) :
    ∃ s, uncompressed x = some s ∧ HostText x s := by
  cases x with
  | v4 => exact ⟨_, rfl, .dotted⟩
  | v6 => exact ⟨_, rfl, .full⟩

def documentation : InetAddress := .v6 #v[0x2001, 0xDB8, 0, 0, 0, 0, 0, 1] none

/-- A private network, where the loopback address is not listed. -/
theorem ipv4_first_private :
    IPv4First uncompressed (some [[.v4 127 0 0 1], [documentation, .v4 192 168 1 5]]) 6 :=
  (ipv4_first_iff uncompressed_documented).mpr (by decide +kernel)

/-- Next to `2001:db8::1` the address `203.0.113.5` comes last. -/
theorem ipv6_precedes : ¬ ∀ (getHostAddress : InetAddress → Option JString),
    (∀ x, ∃ s, getHostAddress x = some s ∧ HostText x s) →
      ∀ interfaces limit, IPv4First getHostAddress interfaces limit := by
  intro all
  obtain ⟨order, -⟩ :=
    all uncompressed uncompressed_documented (some [[.v4 203 0 113 5, documentation]]) 6
  exact absurd order (by decide +kernel)

end Ikofi.Screen
