import Ikofi.Wire

/-!
# Lists of algorithm names

`common-algo.c`: each side offers the usable names of its tables, separated by
commas, and looks the other side's names up in its own table. On both sides the
client's order decides.
-/

namespace Ikofi.Kex

open Wire

/-- `algo_type`. What a name stands for (its `val`, `data` and `mode`) is one value. -/
structure AlgoType (δ : Type) where
  name : Bytes
  data : δ
  usable : Bool := true
  deriving DecidableEq, Repr

def maxProposedAlgo : Nat := 50

def maxNameLen : Nat := 64

def comma : UInt8 := 0x2C

section
variable {δ : Type}

/-- The names that `buf_put_algolist` writes out. -/
def offered (localalgos : List (AlgoType δ)) : List Bytes :=
  (localalgos.filter (·.usable)).map (·.name)

def bufPutAlgolist (localalgos : List (AlgoType δ)) : Bytes :=
  putString ([comma].intercalate (offered localalgos))

/-- The loop of `get_algolist`: the names found so far, and the one being read. -/
def namesFrom (maxCount : Nat) (found : List Bytes) (name : Bytes) :
    Bytes → Except Halt (List Bytes)
  | [] => .ok (found ++ [name])
  | c :: rest =>
    if c = 0 then .ok [] -- someone is trying something strange
    else if c = comma then
      if maxCount ≤ found.length + 1 then dropbearExit "Too many remote algorithms"
      else namesFrom maxCount (found ++ [name]) [] rest
    else namesFrom maxCount found (name ++ [c]) rest

/-- `get_algolist`. The count that its length test sets to zero is set to one
before it is read. -/
def getAlgolist (algolist : Bytes) (maxCount : Nat) : Except Halt (List Bytes) :=
  if maxCount = 0 then .ok [] else namesFrom maxCount [] [] algolist

/-- `buf_has_algo`. The position stays. -/
def bufHasAlgo (buf algo : Bytes) : Except Halt Bool := do
  let (algolist, _) ← bufGetString buf
  let remotenames ← getAlgolist algolist maxProposedAlgo
  return remotenames.contains algo

/-- The inner loop of `buf_match_algo`: where a client's name stands among the
server's, from index `j` on. An unusable name is null and matches nothing. -/
def matchServ (cli : Option Bytes) (j : Nat) : List (Option Bytes) → Option Nat
  | [] => none
  | serv :: rest => if cli.isSome && serv == cli then some j else matchServ cli (j + 1) rest

/-- The loops of `buf_match_algo`, from index `i` of the client's names on. -/
def matchNames (serv : List (Option Bytes)) (i : Nat) : List (Option Bytes) → Option (Nat × Nat)
  | [] => none
  | cli :: rest =>
    match matchServ cli 0 serv with
    | some j => some (i, j)
    | none => matchNames serv (i + 1) rest

/-- `localnames`. -/
def localNames (localalgos : List (AlgoType δ)) : List (Option Bytes) :=
  localalgos.map fun a => if a.usable then some a.name else none

/-- The entry that `buf_match_algo` returns, and `goodguess`. -/
def matchAlgo (isServer : Bool) (localalgos : List (AlgoType δ)) (kexguess2 : Bool)
    (remotenames : List Bytes) : Option (AlgoType δ) × Bool :=
  let remote := remotenames.map some
  let localnames := localNames localalgos
  let clinames := if isServer then remote else localnames
  let servnames := if isServer then localnames else remote
  match matchNames servnames 0 clinames with
  | none => (none, false)
  | some (i, j) =>
    (localalgos[if isServer then j else i]?, if kexguess2 then i = 0 else i = 0 ∧ j = 0)

def bufMatchAlgo (isServer : Bool) (buf : Bytes) (localalgos : List (AlgoType δ))
    (kexguess2 : Bool) : Except Halt (Option (AlgoType δ) × Bool × Bytes) := do
  let (algolist, rest) ← bufGetString buf
  let remotenames ← getAlgolist algolist maxProposedAlgo
  let (algo, goodguess) := matchAlgo isServer localalgos kexguess2 remotenames
  return (algo, goodguess, rest)

end

section
variable {maxCount : Nat}

/-- A list without null bytes is read as what stands between its commas, if that
is not too much. -/
theorem namesFrom_plain {s : Bytes} (plain : (0 : UInt8) ∉ s) (found : List Bytes) (name : Bytes)
    (names : List Bytes) (split : s.splitOn comma = names) :
    namesFrom maxCount found name s =
      if maxCount < found.length + names.length ∧ 1 < names.length then
        dropbearExit "Too many remote algorithms"
      else .ok (found ++ names.modifyHead (name ++ ·)) := by
  induction s generalizing found name names with
  | nil =>
    subst split
    simp [namesFrom, List.splitOn_nil]
  | cons c rest ih =>
    rw [List.mem_cons, not_or] at plain
    rw [List.splitOn_cons_eq_if_modifyHead] at split
    obtain ⟨next, later, cut⟩ := List.exists_cons_of_ne_nil (List.splitOn_ne_nil comma rest)
    rw [namesFrom, if_neg (Ne.symm plain.1)]
    by_cases sep : c = comma
    · have names_eq : names = [] :: next :: later := by
        rw [← split, if_pos (beq_iff_eq.mpr sep), cut]
      subst names_eq
      rw [if_pos sep]
      by_cases full : maxCount ≤ found.length + 1
      · rw [if_pos full, if_pos]
        constructor
        · simp only [List.length_cons]
          omega
        · simp
      · rw [if_neg full, ih plain.2 (found ++ [name]) [] (next :: later) cut]
        by_cases many : 1 < (next :: later).length
        · congr 1
          · simp only [List.length_append, List.length_cons, List.length_nil, eq_iff_iff]
            simp only [List.length_cons] at many
            omega
          · simp
        · have one : later = [] := by
            cases later with
            | nil => rfl
            | cons a as => simp at many
          subst one
          rw [if_neg, if_neg]
          · simp
          · simp only [List.length_cons, List.length_nil]
            omega
          · simp
    · have names_eq : names = (c :: next) :: later := by
        rw [← split, if_neg (by simpa using sep), cut]
        rfl
      subst names_eq
      rw [if_neg sep, ih plain.2 found (name ++ [c]) (next :: later) cut]
      simp

/-- With a null byte in it no name is found. -/
theorem namesFrom_strange {s : Bytes} (strange : (0 : UInt8) ∈ s) {found : List Bytes}
    {name : Bytes} {names : List Bytes} (h : namesFrom maxCount found name s = .ok names) :
    names = [] := by
  induction s generalizing found name with
  | nil => cases strange
  | cons c rest ih =>
    rw [namesFrom] at h
    by_cases null : c = 0
    · rw [if_pos null] at h
      exact (Except.ok.inj h).symm
    · rw [if_neg null] at h
      have later : (0 : UInt8) ∈ rest := by
        cases strange with
        | head => exact absurd rfl null
        | tail _ later => exact later
      by_cases sep : c = comma
      · rw [if_pos sep] at h
        by_cases full : maxCount ≤ found.length + 1
        · rw [if_pos full] at h
          cases h
        · rw [if_neg full] at h
          exact ih later h
      · rw [if_neg sep] at h
        exact ih later h

/-- The names of a list: what stands between its commas, at most fifty of them, and nothing
where the list has a null byte. -/
inductive NamesOf (algolist : Bytes) : List Bytes → Prop
  | plain : (0 : UInt8) ∉ algolist → (algolist.splitOn comma).length ≤ maxProposedAlgo →
      NamesOf algolist (algolist.splitOn comma)
  | strange : (0 : UInt8) ∈ algolist → NamesOf algolist []

theorem getAlgolist_ok {s : Bytes} {names : List Bytes}
    (h : getAlgolist s maxProposedAlgo = .ok names) : NamesOf s names := by
  rw [getAlgolist, if_neg (by decide)] at h
  by_cases strange : (0 : UInt8) ∈ s
  · obtain rfl := namesFrom_strange strange h
    exact .strange strange
  · rw [namesFrom_plain strange [] [] _ rfl] at h
    by_cases many : maxProposedAlgo < ([] : List Bytes).length + (s.splitOn comma).length ∧
        1 < (s.splitOn comma).length
    · rw [if_pos many] at h
      cases h
    · rw [if_neg many] at h
      have same := Except.ok.inj h
      have whole : (s.splitOn comma).modifyHead ([] ++ ·) = s.splitOn comma :=
        congrFun List.modifyHead_id _
      rw [List.nil_append, whole] at same
      subst same
      refine .plain strange ?_
      simp only [maxProposedAlgo, List.length_nil] at many ⊢
      omega

end

/-- The first of the client's names that the server has. -/
def picked (clinames servnames : List Bytes) : Option Bytes :=
  clinames.find? fun n => servnames.contains n

/-- A name that nobody has makes no difference. -/
theorem picked_cons_of_not_mem {n : Bytes} {clinames servnames : List Bytes}
    (h : n ∉ servnames) : picked (n :: clinames) servnames = picked clinames servnames := by
  simp [picked, h]

theorem picked_cons_of_mem {n : Bytes} {clinames servnames : List Bytes} (h : n ∈ servnames) :
    picked (n :: clinames) servnames = some n := by
  simp [picked, h]

/-- Only the server's having a client's name counts. -/
theorem picked_congr {clinames servnames servnames' : List Bytes}
    (h : ∀ n ∈ clinames, n ∈ servnames ↔ n ∈ servnames') :
    picked clinames servnames = picked clinames servnames' := by
  rw [picked, picked, ← List.head?_filter, ← List.head?_filter]
  apply congrArg
  apply List.filter_congr
  intro n hn
  rw [Bool.eq_iff_iff, List.contains_iff_mem, List.contains_iff_mem]
  exact h n hn

theorem mem_filterMap_id {n : Bytes} {names : List (Option Bytes)} :
    n ∈ names.filterMap id ↔ some n ∈ names := by
  simp

theorem matchServ_none (j : Nat) (serv : List (Option Bytes)) : matchServ none j serv = none := by
  induction serv generalizing j with
  | nil => rfl
  | cons s rest ih => exact ih (j + 1)

theorem matchServ_some (n : Bytes) (j : Nat) (serv : List (Option Bytes)) :
    matchServ (some n) j serv = (serv.findIdx? (· == some n)).map (j + ·) := by
  induction serv generalizing j with
  | nil => rfl
  | cons s rest ih =>
    rw [matchServ, List.findIdx?_cons, Option.isSome_some, Bool.true_and]
    by_cases found : (s == some n) = true
    · rw [if_pos found, if_pos found]
      rfl
    · rw [if_neg found, if_neg found, ih]
      rw [Option.map_map]
      congr 1
      funext k
      simp only [Function.comp_apply]
      omega

theorem matchServ_eq_none {n : Bytes} {serv : List (Option Bytes)} :
    matchServ (some n) 0 serv = none ↔ n ∉ serv.filterMap id := by
  rw [matchServ_some, Option.map_eq_none_iff, List.findIdx?_eq_none_iff, mem_filterMap_id]
  constructor
  · intro none has
    simpa using none _ has
  · intro missing s hs
    rw [beq_eq_false_iff_ne]
    exact fun same => missing (same ▸ hs)

theorem matchServ_eq_some {n : Bytes} {serv : List (Option Bytes)} {j : Nat}
    (h : matchServ (some n) 0 serv = some j) : serv[j]? = some (some n) := by
  simp only [matchServ_some, Nat.zero_add, Option.map_id_fun', id_eq] at h
  obtain ⟨bound, found, -⟩ := List.findIdx?_eq_some_iff_getElem.mp h
  rw [List.getElem?_eq_getElem bound, beq_iff_eq.mp found]

theorem matchNames_none {serv cli : List (Option Bytes)} {k : Nat} :
    matchNames serv k cli = none ↔ picked (cli.filterMap id) (serv.filterMap id) = none := by
  induction cli generalizing k with
  | nil => simp [matchNames, picked]
  | cons c rest ih =>
    cases c with
    | none =>
      rw [matchNames, matchServ_none]
      exact ih
    | some n =>
      rw [matchNames, List.filterMap_cons_some (f := id) rfl]
      cases found : matchServ (some n) 0 serv with
      | none =>
        rw [picked_cons_of_not_mem (matchServ_eq_none.mp found)]
        exact ih
      | some j =>
        have has : n ∈ serv.filterMap id := by
          by_contra missing
          rw [matchServ_eq_none.mpr missing] at found
          cases found
        rw [picked_cons_of_mem has]
        simp

/-- Where the loops stop both lists have the client's first name that the server has. -/
theorem matchNames_some {serv cli : List (Option Bytes)} {k i j : Nat}
    (h : matchNames serv k cli = some (i, j)) :
    ∃ n, k ≤ i ∧ cli[i - k]? = some (some n) ∧ serv[j]? = some (some n) ∧
      picked (cli.filterMap id) (serv.filterMap id) = some n := by
  induction cli generalizing k with
  | nil => cases h
  | cons c rest ih =>
    cases c with
    | none =>
      rw [matchNames, matchServ_none] at h
      obtain ⟨n, bound, atCli, atServ, first⟩ := ih h
      refine ⟨n, by omega, ?_, atServ, first⟩
      have next : i - k = (i - (k + 1)) + 1 := by omega
      rw [next]
      exact atCli
    | some m =>
      rw [matchNames] at h
      cases found : matchServ (some m) 0 serv with
      | some j' =>
        rw [found] at h
        obtain ⟨rfl, rfl⟩ := Prod.mk.inj (Option.some.inj h)
        have has := matchServ_eq_some found
        have member : m ∈ serv.filterMap id := mem_filterMap_id.mpr (List.mem_of_getElem? has)
        refine ⟨m, Nat.le_refl _, by simp, has, ?_⟩
        rw [List.filterMap_cons_some (f := id) rfl]
        exact picked_cons_of_mem member
      | none =>
        rw [found] at h
        obtain ⟨n, bound, atCli, atServ, first⟩ := ih h
        refine ⟨n, by omega, ?_, atServ, ?_⟩
        · have next : i - k = (i - (k + 1)) + 1 := by omega
          rw [next]
          exact atCli
        · rw [List.filterMap_cons_some (f := id) rfl,
            picked_cons_of_not_mem (matchServ_eq_none.mp found)]
          exact first

theorem matchNames_bound {serv cli : List (Option Bytes)} {k i j : Nat}
    (h : matchNames serv k cli = some (i, j)) : k ≤ i := by
  obtain ⟨n, bound, -⟩ := matchNames_some h
  exact bound

/-- The client's first name is the one found if the server has it. -/
theorem matchNames_first {serv cli : List (Option Bytes)} {j : Nat} :
    matchNames serv 0 cli = some (0, j) ↔
      ∃ n, cli.head? = some (some n) ∧ serv.findIdx? (· == some n) = some j := by
  have later (rest : List (Option Bytes)) : matchNames serv 1 rest ≠ some (0, j) :=
    fun found => absurd (matchNames_bound found) (by decide)
  cases cli with
  | nil => simp [matchNames]
  | cons c rest =>
    cases c with
    | none =>
      rw [matchNames, matchServ_none]
      simp [later]
    | some n =>
      rw [matchNames, matchServ_some]
      simp only [List.head?_cons, Option.some.injEq, exists_eq_left']
      cases found : serv.findIdx? (· == some n) with
      | none => simp [later]
      | some j' => simp

section
variable {δ : Type} {l : List (AlgoType δ)} {remotenames : List Bytes} {isServer kexguess2 : Bool}

theorem filterMap_localNames (l : List (AlgoType δ)) : (localNames l).filterMap id = offered l := by
  induction l with
  | nil => rfl
  | cons a rest ih =>
    simp only [localNames, offered, List.map_cons] at ih ⊢
    by_cases usable : a.usable = true
    · rw [if_pos usable, List.filter_cons_of_pos usable, List.filterMap_cons_some (f := id) rfl, ih]
      rfl
    · rw [if_neg usable, List.filter_cons_of_neg usable, List.filterMap_cons_none (f := id) rfl, ih]

theorem localNames_getElem {i : Nat} {n : Bytes} (h : (localNames l)[i]? = some (some n)) :
    ∃ a, l[i]? = some a ∧ a ∈ l ∧ a.usable = true ∧ a.name = n := by
  rw [localNames, List.getElem?_map, Option.map_eq_some_iff] at h
  obtain ⟨a, found, named⟩ := h
  by_cases usable : a.usable = true
  · rw [if_pos usable] at named
    exact ⟨a, found, List.mem_of_getElem? found, usable, Option.some.inj named⟩
  · rw [if_neg usable] at named
    cases named

theorem filterMap_map_some (names : List Bytes) : (names.map some).filterMap id = names := by
  simp [List.filterMap_map]

/-- `clinames` and `servnames`, where an unusable name is null. -/
def sides (isServer : Bool) (l : List (AlgoType δ)) (remotenames : List Bytes) :
    List (Option Bytes) × List (Option Bytes) :=
  if isServer then (remotenames.map some, localNames l) else (localNames l, remotenames.map some)

/-- The name that both are to use. -/
def pickedOf (isServer : Bool) (l : List (AlgoType δ)) (remotenames : List Bytes) : Option Bytes :=
  if isServer then picked remotenames (offered l) else picked (offered l) remotenames

theorem picked_sides :
    picked ((sides isServer l remotenames).1.filterMap id)
      ((sides isServer l remotenames).2.filterMap id) = pickedOf isServer l remotenames := by
  cases isServer with
  | true => exact congrArg₂ picked (filterMap_map_some _) (filterMap_localNames l)
  | false => exact congrArg₂ picked (filterMap_localNames l) (filterMap_map_some _)

theorem matchAlgo_eq :
    matchAlgo isServer l kexguess2 remotenames =
      match matchNames (sides isServer l remotenames).2 0 (sides isServer l remotenames).1 with
      | none => (none, false)
      | some (i, j) =>
        (l[if isServer then j else i]?, if kexguess2 then i = 0 else i = 0 ∧ j = 0) := by
  cases isServer <;> rfl

/-- A name that stands in both lists is the name of the entry at the local index. -/
theorem sides_getElem {i j : Nat} {n : Bytes}
    (atCli : (sides isServer l remotenames).1[i]? = some (some n))
    (atServ : (sides isServer l remotenames).2[j]? = some (some n)) :
    ∃ a, l[if isServer then j else i]? = some a ∧ a ∈ l ∧ a.usable = true ∧ a.name = n := by
  cases isServer with
  | true => exact localNames_getElem atServ
  | false => exact localNames_getElem atCli

/-- The entry found is a usable one and has the name that is to be picked; if there
is none, no name is. -/
theorem matchAlgo_picked (isServer : Bool) (l : List (AlgoType δ)) (kexguess2 : Bool)
    (remotenames : List Bytes) :
    (∃ a, (matchAlgo isServer l kexguess2 remotenames).1 = some a ∧ a ∈ l ∧ a.usable = true ∧
      pickedOf isServer l remotenames = some a.name) ∨
    (matchAlgo isServer l kexguess2 remotenames).1 = none ∧
      pickedOf isServer l remotenames = none := by
  rw [matchAlgo_eq, ← picked_sides]
  cases found : matchNames (sides isServer l remotenames).2 0 (sides isServer l remotenames).1 with
  | none => exact Or.inr ⟨rfl, matchNames_none.mp found⟩
  | some ij =>
    obtain ⟨n, -, atCli, atServ, first⟩ := matchNames_some found
    obtain ⟨a, entry, member, usable, named⟩ := sides_getElem atCli atServ
    exact Or.inl ⟨a, entry, member, usable, by rw [named]; exact first⟩

/-- The client's first name is usable and the server has it, by the old rule as its own first. -/
def Leads (kexguess2 : Bool) (clinames servnames : List (Option Bytes)) : Prop :=
  ∃ n, clinames.head? = some (some n) ∧
    if kexguess2 then some n ∈ servnames else servnames.head? = some (some n)

theorem matchAlgo_goodguess :
    (matchAlgo isServer l kexguess2 remotenames).2 = true ↔
      Leads kexguess2 (sides isServer l remotenames).1 (sides isServer l remotenames).2 := by
  rw [matchAlgo_eq, Leads]
  generalize (sides isServer l remotenames).1 = cli
  generalize (sides isServer l remotenames).2 = serv
  constructor
  · intro good
    cases found : matchNames serv 0 cli with
    | none =>
      rw [found] at good
      cases good
    | some ij =>
      obtain ⟨i, j⟩ := ij
      rw [found] at good
      have start : i = 0 ∧ (kexguess2 = false → j = 0) := by
        cases kexguess2 <;> simpa using good
      rw [start.1] at found
      obtain ⟨n, first, at_j⟩ := matchNames_first.mp found
      refine ⟨n, first, ?_⟩
      obtain ⟨bound, same, -⟩ := List.findIdx?_eq_some_iff_getElem.mp at_j
      have same := beq_iff_eq.mp same
      cases kexguess2 with
      | true => exact same ▸ List.getElem_mem bound
      | false =>
        obtain rfl := start.2 rfl
        rw [if_neg (by decide), List.head?_eq_getElem?, List.getElem?_eq_getElem bound]
        exact congrArg some same
  · rintro ⟨n, first, has⟩
    have has' : ∃ j, serv.findIdx? (· == some n) = some j ∧ (kexguess2 = false → j = 0) := by
      cases kexguess2 with
      | true =>
        have member : some n ∈ serv := has
        cases at_j : serv.findIdx? (· == some n) with
        | none => exact absurd (List.findIdx?_eq_none_iff.mp at_j _ member) (by simp)
        | some j => exact ⟨j, rfl, nofun⟩
      | false =>
        have head : serv.head? = some (some n) := has
        obtain ⟨rest, rfl⟩ := List.head?_eq_some_iff.mp head
        exact ⟨0, by simp [List.findIdx?_cons], fun _ => rfl⟩
    obtain ⟨j, at_j, old⟩ := has'
    rw [matchNames_first.mpr ⟨n, first, at_j⟩]
    cases kexguess2 with
    | true => simp
    | false => simp [old rfl]

end

/-- Names that survive a list with commas, and not too many. -/
structure Proper {δ : Type} (l : List (AlgoType δ)) : Prop where
  filled : ∀ n ∈ offered l, n ≠ []
  plain : ∀ n ∈ offered l, (0 : UInt8) ∉ n ∧ comma ∉ n
  short : ∀ n ∈ offered l, n.length ≤ maxNameLen
  few : (offered l).length ≤ maxProposedAlgo

/-- What `get_algolist` makes of a list that was put. Without any name it is one
empty name. -/
def received {δ : Type} (l : List (AlgoType δ)) : List Bytes :=
  if offered l = [] then [[]] else offered l

theorem length_intercalate_le (sep : UInt8) {k : Nat} {names : List Bytes}
    (h : ∀ n ∈ names, n.length ≤ k) :
    ([sep].intercalate names).length ≤ names.length * (k + 1) := by
  induction names with
  | nil => simp
  | cons n rest ih =>
    rw [List.forall_mem_cons] at h
    have later := ih h.2
    have whole : (n :: rest).length * (k + 1) = rest.length * (k + 1) + (k + 1) := by
      rw [List.length_cons, Nat.succ_mul]
    rw [whole]
    cases rest with
    | nil =>
      rw [List.intercalate_singleton]
      exact Nat.le_add_left_of_le (Nat.le_succ_of_le h.1)
    | cons m more =>
      rw [List.intercalate_cons_cons]
      simp only [List.length_append, List.length_singleton]
      have first := h.1
      omega

theorem mem_intercalate {sep c : UInt8} {names : List Bytes}
    (h : c ∈ [sep].intercalate names) : c = sep ∨ ∃ n ∈ names, c ∈ n := by
  induction names with
  | nil => cases h
  | cons n rest ih =>
    cases rest with
    | nil => exact Or.inr ⟨n, List.mem_singleton_self n, by simpa using h⟩
    | cons m more =>
      rw [List.intercalate_cons_cons, List.mem_append, List.mem_append, List.mem_singleton] at h
      obtain (here | sep) | later := h
      · exact Or.inr ⟨n, List.mem_cons_self, here⟩
      · exact Or.inl sep
      · apply (ih later).imp id
        exact fun ⟨n', hn', hc⟩ => ⟨n', List.mem_cons_of_mem n hn', hc⟩

section
variable {δ : Type} {l : List (AlgoType δ)}

theorem splitOn_offered (h : Proper l) :
    ([comma].intercalate (offered l)).splitOn comma = received l := by
  by_cases none : offered l = []
  · rw [received, if_pos none, none]
    exact List.splitOn_nil comma
  · rw [received, if_neg none]
    exact List.splitOn_intercalate comma (fun n hn => (h.plain n hn).2) none

theorem getAlgolist_offered (h : Proper l) :
    getAlgolist ([comma].intercalate (offered l)) maxProposedAlgo = .ok (received l) := by
  have plain : (0 : UInt8) ∉ [comma].intercalate (offered l) := by
    intro null
    obtain sep | ⟨n, hn, null⟩ := mem_intercalate null
    · exact absurd sep (by decide)
    · exact (h.plain n hn).1 null
  have few : (received l).length ≤ maxProposedAlgo := by
    rw [received]
    split
    · exact Nat.succ_le_of_lt (by decide)
    · exact h.few
  have whole : (received l).modifyHead ([] ++ ·) = received l := congrFun List.modifyHead_id _
  rw [getAlgolist, if_neg (by decide), namesFrom_plain plain [] [] _ (splitOn_offered h), if_neg,
    List.nil_append, whole]
  simp only [List.length_nil, Nat.zero_add]
  omega

/-- A list that was put is read back. -/
theorem bufGetString_putAlgolist (h : Proper l) (rest : Bytes) :
    bufGetString (bufPutAlgolist l ++ rest) = .ok ([comma].intercalate (offered l), rest) := by
  apply bufGetString_putString
  have long := length_intercalate_le comma h.short
  have few := Nat.mul_le_mul_right (maxNameLen + 1) h.few
  exact Nat.le_trans (Nat.le_trans long few) (by decide)

/-- A name that is not empty is received if it is offered. -/
theorem mem_received {n : Bytes} (filled : n ≠ []) : n ∈ received l ↔ n ∈ offered l := by
  rw [received]
  split
  · rename_i none
    simp [none, filled]
  · exact Iff.rfl

/-- The client's list read by the server, the server's list read by the client: the
same name is picked. -/
theorem picked_received {δ' : Type} {srv : List (AlgoType δ)} {cli : List (AlgoType δ')}
    (hs : Proper srv) (hc : Proper cli) :
    picked (received cli) (offered srv) = picked (offered cli) (received srv) := by
  have empty : [] ∉ offered srv := fun h => hs.filled [] h rfl
  have same : picked (received cli) (offered srv) = picked (offered cli) (offered srv) := by
    rw [received]
    split
    · rename_i none
      rw [picked_cons_of_not_mem empty, none]
    · rfl
  rw [same]
  -- a name of the client is not empty, and so in both of the server's lists or in none
  apply picked_congr
  intro n hn
  exact (mem_received (hc.filled n hn)).symm

end

end Ikofi.Kex
