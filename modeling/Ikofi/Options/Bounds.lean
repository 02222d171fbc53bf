import Ikofi.Options.Model

/-!
# Reading within the arguments

The loop leaves the array only behind the last argument, when that one waits for
a value. Which arguments come to that is told by their shape: complete options
that are all accepted, and then one more that is not complete.
-/

namespace Ikofi.Options

/-- The computation does not read behind the array. -/
def InBounds {α : Type} (x : Except Stop α) : Prop := ∀ i, x ≠ .error (.outOfBounds i)

def isFlag (c : UInt8) : Bool :=
  match letter c with
  | .flag _ => true
  | _ => false

/-- What a letter waits for. -/
def takes (c : UInt8) : Option Target :=
  match letter c with
  | .next a => some (.next a)
  | .nextisport => some .port
  | _ => none

/-- A complete option: switches alone, or switches and a letter with its value, which
stands in the same argument or in the next one. -/
inductive Piece
  | flags (fs : Bytes)
  | joined (fs : Bytes) (x : UInt8) (v : Bytes)
  | separate (fs : Bytes) (x : UInt8) (v : Bytes)

namespace Piece

def args : Piece → List Bytes
  | .flags fs => [45 :: fs]
  | .joined fs x v => [45 :: (fs ++ x :: v)]
  | .separate fs x v => [45 :: (fs ++ [x]), v]

def WellFormed : Piece → Prop
  | .flags fs => fs ≠ [] ∧ ∀ c ∈ fs, isFlag c = true
  | .joined fs x v => (∀ c ∈ fs, isFlag c = true) ∧ (takes x).isSome ∧ v ≠ []
  | .separate fs x _ => (∀ c ∈ fs, isFlag c = true) ∧ (takes x).isSome

def switches : Piece → Bytes
  | .flags fs | .joined fs _ _ | .separate fs _ _ => fs

/-- What the option is given, and for what. -/
def given : Piece → Option (Target × Bytes)
  | .flags _ => none
  | .joined _ x v | .separate _ x v => (takes x).map (·, v)

def spec (p : Piece) : Option Bytes :=
  match p.given with
  | some (.port, v) => some v
  | _ => none

def keyfile (p : Piece) : Option Bytes :=
  match p.given with
  | some (.next .keyfile, v) => some v
  | _ => none

end Piece

/-- Options that the loop takes after `ports` listening ports and `hostkeys` key files:
the ports that still have a place are well written, and there is a place for every
key file. -/
structure Accepted (ports hostkeys : Nat) (ps : List Piece) : Prop where
  wellFormed : ∀ p ∈ ps, p.WellFormed
  bindings : ∀ spec ∈ (ps.filterMap Piece.spec).take (dropbearMaxPorts - ports),
    ∃ b, binding spec = .ok b
  keyfiles : (ps.filterMap Piece.keyfile).length ≤ maxHostkeys - hostkeys

/-- Accepted options, and behind them one last argument that waits for its value. -/
def Unfinished (ports hostkeys : Nat) (args : List Bytes) : Prop :=
  ∃ ps fs x, Accepted ports hostkeys ps ∧ (∀ c ∈ fs, isFlag c = true) ∧ (takes x).isSome ∧
    args = ps.flatMap Piece.args ++ [45 :: (fs ++ [x])]

def withFlags (o : SvrOpts) (fs : Bytes) : SvrOpts :=
  fs.foldl (fun o c => match letter c with
    | .flag f => { o with flag := fun g => g == f || o.flag g }
    | _ => o) o

/-- What the options say about passwords. -/
def SvrOpts.passwords (o : SvrOpts) : Bool × Bool × Bool × Bool :=
  (o.noauthpass, o.norootpass, o.allowblankpass, o.multiauthmethod)

section
variable {o : SvrOpts}

theorem withFlags_passwords (fs : Bytes) : (withFlags o fs).passwords = o.passwords := by
  induction fs generalizing o with
  | nil => rfl
  | cons c fs ih =>
    simp only [withFlags, List.foldl_cons] at ih ⊢
    split
    · exact ih
    · exact ih

theorem withFlags_lists (fs : Bytes) :
    (withFlags o fs).ports = o.ports ∧ (withFlags o fs).hostkeyFiles = o.hostkeyFiles := by
  induction fs generalizing o with
  | nil => exact ⟨rfl, rfl⟩
  | cons c fs ih =>
    simp only [withFlags, List.foldl_cons] at ih ⊢
    split
    · exact ih
    · exact ih

theorem cluster_flags {fs rest : Bytes} (flags : ∀ c ∈ fs, isFlag c = true) :
    cluster o (fs ++ rest) = cluster (withFlags o fs) rest := by
  induction fs generalizing o with
  | nil => rfl
  | cons c fs ih =>
    have hc := flags c (by simp)
    unfold isFlag at hc
    split at hc
    · rename_i f hf
      rw [List.cons_append, cluster, hf]
      simp only [withFlags, List.foldl_cons, hf]
      exact ih fun d hd => flags d (by simp [hd])
    · cases hc

theorem cluster_takes {x : UInt8} {v : Bytes} {t : Target} (h : takes x = some t) :
    cluster o (x :: v) = .ok (o, some t, v) := by
  unfold takes at h
  rw [cluster]
  split at h <;> cases h
  · rename_i a ha
    rw [ha]
  · rename_i hp
    rw [hp]

/-- Every way through the letters of one argument. -/
theorem cluster_cases (bs : Bytes) :
    (∀ c ∈ bs, isFlag c = true) ∨
    (∃ fs x v t, bs = fs ++ x :: v ∧ (∀ c ∈ fs, isFlag c = true) ∧ takes x = some t) ∨
    (∃ e, cluster o bs = .error e ∧ (e = .success ∨ e = .failure)) := by
  induction bs generalizing o with
  | nil => exact Or.inl (by simp)
  | cons c bs ih =>
    cases hc : letter c with
    | flag f =>
      have flag : isFlag c = true := by simp [isFlag, hc]
      rcases ih (o := { o with flag := fun g => g == f || o.flag g }) with
        flags | ⟨fs, x, v, t, rfl, flags, ht⟩ | ⟨e, he, which⟩
      · exact Or.inl (by simpa [flag] using flags)
      · exact Or.inr (Or.inl ⟨c :: fs, x, v, t, rfl, by simpa [flag] using flags, ht⟩)
      · refine Or.inr (Or.inr ⟨e, ?_, which⟩)
        rw [cluster, hc]
        exact he
    | next a => exact Or.inr (Or.inl ⟨[], c, bs, .next a, rfl, by simp, by simp [takes, hc]⟩)
    | nextisport => exact Or.inr (Or.inl ⟨[], c, bs, .port, rfl, by simp, by simp [takes, hc]⟩)
    | printhelp => exact Or.inr (Or.inr ⟨.success, by simp [cluster, hc], by simp⟩)
    | printVersion => exact Or.inr (Or.inr ⟨.success, by simp [cluster, hc], by simp⟩)
    | invalid => exact Or.inr (Or.inr ⟨.failure, by simp [cluster, hc], by simp⟩)

theorem binding_inBounds (spec : Bytes) : InBounds (binding spec) := by
  intro i
  unfold binding
  split
  · simp [dropbearExit]
  · dsimp only
    split
    · simp
    · split
      · simp [dropbearExit]
      · simp

theorem store_inBounds (t : Target) (v : Bytes) : InBounds (store t v o) := by
  intro i
  unfold store
  split
  · unfold addportandaddress
    split
    · simp
    · have := binding_inBounds v i
      cases hb : binding v with
      | ok b => simp [Except.map]
      | error e => simpa [Except.map, hb] using this
  · unfold addhostkey
    split <;> simp [dropbearExit]
  · simp

end

/-- What a complete option does. -/
def Piece.run (p : Piece) (o : SvrOpts) : Except Stop SvrOpts :=
  match p.given with
  | none => .ok (withFlags o p.switches)
  | some (t, v) => store t v (withFlags o p.switches)

theorem store_passwords {o o' : SvrOpts} {t : Target} {v : Bytes} (h : store t v o = .ok o') :
    o'.passwords = o.passwords := by
  unfold store at h
  split at h
  · unfold addportandaddress at h
    split at h
    · cases h
      rfl
    · cases read : binding v with
      | error e => rw [read] at h; cases h
      | ok b =>
        rw [read] at h
        cases h
        rfl
  · unfold addhostkey at h
    split at h
    · cases h
    · cases h
      rfl
  · cases h
    rfl

theorem run_passwords {p : Piece} {o o' : SvrOpts} (h : p.run o = .ok o') :
    o'.passwords = o.passwords := by
  unfold Piece.run at h
  split at h
  · cases h
    exact withFlags_passwords p.switches
  · exact (store_passwords h).trans (withFlags_passwords p.switches)

theorem entry_of_drop {argv rest : List Bytes} {arg : Bytes} {i : Nat}
    (h : argv.drop i = arg :: rest) : entry argv i = .ok arg ∧ i < argv.length ∧
      argv.drop (i + 1) = rest := by
  have inside : i < argv.length := by
    by_contra out
    rw [List.drop_eq_nil_of_le (Nat.not_lt.mp out)] at h
    cases h
  rw [List.drop_eq_getElem_cons inside] at h
  obtain ⟨rfl, rfl⟩ := List.cons.inj h
  exact ⟨by simp [entry, inside], inside, rfl⟩

section
variable {argv rest : List Bytes} {i : Nat} {o : SvrOpts}

/-- One turn of the loop, as far as the letters of its argument. -/
theorem optionLoop_cluster {bs : Bytes} (filled : bs ≠ []) (h : argv.drop i = (45 :: bs) :: rest) :
    optionLoop argv i o = (do
      let (o, target, rest) ← cluster o bs
      match target with
      | none => optionLoop argv (i + 1) o
      | some target =>
        if rest.isEmpty then
          let value ← entry argv (i + 1)
          let o ← store target value o
          optionLoop argv (i + 2) o
        else
          let o ← store target rest o
          optionLoop argv (i + 1) o) := by
  obtain ⟨arg, inside, -⟩ := entry_of_drop h
  obtain ⟨b, bs, rfl⟩ := List.exists_cons_of_ne_nil filled
  rw [optionLoop, if_pos inside, arg]
  rfl

/-- The loop takes a complete option as a whole. -/
theorem optionLoop_piece {p : Piece} (wf : p.WellFormed) (h : argv.drop i = p.args ++ rest) :
    optionLoop argv i o = p.run o >>= optionLoop argv (i + p.args.length) := by
  cases p with
  | flags fs =>
    have letters : cluster o fs = .ok (withFlags o fs, none, []) := by
      rw [← List.append_nil fs, cluster_flags wf.2, List.append_nil]
      rfl
    rw [optionLoop_cluster wf.1 h, letters]
    rfl
  | joined fs x v =>
    obtain ⟨flags, waits, filled⟩ := wf
    obtain ⟨t, ht⟩ := Option.isSome_iff_exists.mp waits
    have some : v.isEmpty = false := by simpa using filled
    rw [optionLoop_cluster (by simp) h, cluster_flags flags, cluster_takes ht]
    simp only [bind, Except.bind, some, Bool.false_eq_true, if_false, Piece.run, Piece.given, ht,
      Option.map_some, Piece.switches, Piece.args, List.length_singleton]
  | separate fs x v =>
    obtain ⟨flags, waits⟩ := wf
    obtain ⟨t, ht⟩ := Option.isSome_iff_exists.mp waits
    obtain ⟨-, -, next⟩ := entry_of_drop h
    obtain ⟨value, -, -⟩ := entry_of_drop next
    rw [optionLoop_cluster (by simp) h, cluster_flags flags, cluster_takes ht]
    simp only [bind, Except.bind, List.isEmpty_nil, if_true, value, Piece.run, Piece.given, ht,
      Option.map_some, Piece.switches, Piece.args, List.length_cons, List.length_nil]

/-- Behind an argument that waits for its value, the loop reads where there is none. -/
theorem optionLoop_last {fs : Bytes} {x : UInt8} (flags : ∀ c ∈ fs, isFlag c = true)
    (waits : (takes x).isSome) (h : argv.drop i = [45 :: (fs ++ [x])]) :
    optionLoop argv i o = .error (.outOfBounds (i + 1)) := by
  obtain ⟨t, ht⟩ := Option.isSome_iff_exists.mp waits
  obtain ⟨-, -, next⟩ := entry_of_drop h
  have missing : entry argv (i + 1) = .error (.outOfBounds (i + 1)) := by
    have out : argv.length ≤ i + 1 := List.drop_eq_nil_iff.mp next
    simp [entry, List.getElem?_eq_none out]
  rw [optionLoop_cluster (by simp) h, cluster_flags flags, cluster_takes ht]
  simp only [bind, Except.bind, List.isEmpty_nil, if_true, missing]

/-- Every way through one turn of the loop. -/
theorem optionLoop_cases (argv : List Bytes) (i : Nat) (o : SvrOpts) :
    (∃ (p : Piece) (rest : List Bytes), p.WellFormed ∧ argv.drop i = p.args ++ rest) ∨
    (∃ fs x, (∀ c ∈ fs, isFlag c = true) ∧ (takes x).isSome ∧ argv.drop i = [45 :: (fs ++ [x])]) ∨
    argv.drop i = [] ∨ ∃ e, optionLoop argv i o = .error e ∧ ∀ k, e ≠ .outOfBounds k := by
  cases h : argv.drop i with
  | nil => exact Or.inr (Or.inr (Or.inl rfl))
  | cons arg rest =>
    by_cases option : ∃ bs, bs ≠ [] ∧ arg = 45 :: bs
    · obtain ⟨bs, filled, rfl⟩ := option
      rcases cluster_cases (o := o) bs with flags | ⟨fs, x, v, t, rfl, flags, ht⟩ | ⟨e, he, which⟩
      · exact Or.inl ⟨.flags bs, rest, ⟨filled, flags⟩, rfl⟩
      · have waits : (takes x).isSome := by simp [ht]
        by_cases empty : v = []
        · subst empty
          cases rest with
          | nil => exact Or.inr (Or.inl ⟨fs, x, flags, waits, rfl⟩)
          | cons v rest => exact Or.inl ⟨.separate fs x v, rest, ⟨flags, waits⟩, rfl⟩
        · exact Or.inl ⟨.joined fs x v, rest, ⟨flags, waits, empty⟩, rfl⟩
      · refine Or.inr (Or.inr (Or.inr ⟨e, ?_, ?_⟩))
        · rw [optionLoop_cluster filled h, he]
          rfl
        · rcases which with rfl | rfl <;> simp
    · have invalid : isOption arg = false := by
        unfold isOption
        split
        · exact absurd ⟨_, by simp, rfl⟩ option
        · rfl
      obtain ⟨read, inside, -⟩ := entry_of_drop h
      refine Or.inr (Or.inr (Or.inr ⟨.exit (lit "Invalid argument: " ++ arg), ?_, by simp⟩))
      rw [optionLoop, if_pos inside, read]
      simp [bind, Except.bind, invalid, dropbearExit]

/-- Behind the last argument the loop is over. -/
theorem optionLoop_end (h : argv.drop i = []) : optionLoop argv i o = .ok o := by
  have out : argv.length ≤ i := List.drop_eq_nil_iff.mp h
  rw [optionLoop, if_neg (Nat.not_lt.mpr out)]

end

section
variable {o : SvrOpts} {p : Piece} {ps : List Piece}

/-- An option is given a port, a key file, or neither. -/
theorem Piece.run_cases (p : Piece) (o : SvrOpts) :
    (p.spec = none ∧ p.keyfile = none ∧
      ∃ o', p.run o = .ok o' ∧ o'.ports = o.ports ∧ o'.hostkeyFiles = o.hostkeyFiles) ∨
    (∃ v, p.spec = some v ∧ p.keyfile = none ∧
      p.run o = addportandaddress v (withFlags o p.switches)) ∨
    (∃ v, p.spec = none ∧ p.keyfile = some v ∧ p.run o = addhostkey v (withFlags o p.switches)) := by
  obtain ⟨ports, hostkeys⟩ := withFlags_lists (o := o) p.switches
  unfold Piece.spec Piece.keyfile Piece.run
  cases p.given with
  | none => exact Or.inl ⟨rfl, rfl, _, rfl, ports, hostkeys⟩
  | some tv =>
    obtain ⟨t, v⟩ := tv
    cases t with
    | port => exact Or.inr (Or.inl ⟨v, rfl, rfl, rfl⟩)
    | next a =>
      by_cases key : a = .keyfile
      · subst key
        exact Or.inr (Or.inr ⟨v, rfl, rfl, rfl⟩)
      · refine Or.inl ⟨rfl, ?_, { withFlags o p.switches with
          value := fun b => if b = a then some v else (withFlags o p.switches).value b }, ?_,
          ports, hostkeys⟩
        · split
          · rename_i same
            cases same
            exact absurd rfl key
          · rfl
        · simp only [store]

theorem accepted_iff {n k : Nat} :
    Accepted n k ps ↔ (∀ p ∈ ps, p.WellFormed) ∧
      (∀ spec ∈ (ps.filterMap Piece.spec).take (dropbearMaxPorts - n), ∃ b, binding spec = .ok b) ∧
      (ps.filterMap Piece.keyfile).length ≤ maxHostkeys - k :=
  ⟨fun h => ⟨h.wellFormed, h.bindings, h.keyfiles⟩, fun ⟨wf, b, k⟩ => ⟨wf, b, k⟩⟩

/-- Options are accepted one after the other. -/
theorem accepted_cons :
    Accepted o.ports.length o.hostkeyFiles.length (p :: ps) ↔
      p.WellFormed ∧ ∃ o', p.run o = .ok o' ∧ Accepted o'.ports.length o'.hostkeyFiles.length ps := by
  obtain ⟨ports, hostkeys⟩ := withFlags_lists (o := o) p.switches
  rw [accepted_iff, List.forall_mem_cons, and_assoc]
  refine and_congr_right fun _ => ?_
  rcases p.run_cases o with ⟨spec, key, o', run, hp, hk⟩ | ⟨v, spec, key, run⟩ | ⟨v, spec, key, run⟩
  · rw [List.filterMap_cons_none spec, List.filterMap_cons_none key, ← accepted_iff, run]
    simp [hp, hk]
  · rw [List.filterMap_cons_some spec, List.filterMap_cons_none key, run, addportandaddress, ports]
    by_cases full : dropbearMaxPorts ≤ o.ports.length
    · rw [if_pos full]
      simp [accepted_iff, ports, hostkeys, Nat.sub_eq_zero_of_le full]
    · rw [if_neg full]
      have room : dropbearMaxPorts - o.ports.length = dropbearMaxPorts - (o.ports.length + 1) + 1 := by
        omega
      rw [room, List.take_succ_cons, List.forall_mem_cons]
      cases binding v with
      | error e => simp [Except.map]
      | ok b => simp [Except.map, accepted_iff, hostkeys]
  · rw [List.filterMap_cons_none spec, List.filterMap_cons_some key, run, addhostkey, hostkeys,
      List.length_cons]
    by_cases full : maxHostkeys ≤ o.hostkeyFiles.length
    · rw [if_pos full]
      simp only [dropbearExit, reduceCtorEq, false_and, exists_false, iff_false, not_and]
      omega
    · rw [if_neg full]
      have room : maxHostkeys - o.hostkeyFiles.length =
          maxHostkeys - (o.hostkeyFiles.length + 1) + 1 := by
        omega
      simp [accepted_iff, ports, room]

end

theorem Piece.run_inBounds (p : Piece) (o : SvrOpts) : InBounds (p.run o) := by
  unfold Piece.run
  split
  · intro i
    simp
  · exact store_inBounds _ _

theorem Piece.length_args (p : Piece) : 0 < p.args.length := by
  cases p <;> simp [Piece.args]

theorem drop_args {argv rest : List Bytes} {i : Nat} {p : Piece}
    (h : argv.drop i = p.args ++ rest) : argv.drop (i + p.args.length) = rest := by
  rw [← List.drop_drop, h, List.drop_left]

theorem fewer_left {argv rest : List Bytes} {i : Nat} {p : Piece}
    (h : argv.drop i = p.args ++ rest) :
    argv.length - (i + p.args.length) < argv.length - i := by
  have filled := p.length_args
  have := congrArg List.length h
  simp only [List.length_drop, List.length_append] at this
  omega

/-- On unfinished arguments the loop takes the accepted options and then reads on. -/
theorem optionLoop_reads {argv : List Bytes} {ps : List Piece} {fs : Bytes} {x : UInt8} {i : Nat}
    {o : SvrOpts} (accepted : Accepted o.ports.length o.hostkeyFiles.length ps)
    (flags : ∀ c ∈ fs, isFlag c = true) (waits : (takes x).isSome)
    (h : argv.drop i = ps.flatMap Piece.args ++ [45 :: (fs ++ [x])]) :
    ∃ k, optionLoop argv i o = .error (.outOfBounds k) := by
  induction ps generalizing i o with
  | nil => exact ⟨_, optionLoop_last flags waits h⟩
  | cons p ps ih =>
    obtain ⟨wf, o', run, accepted⟩ := accepted_cons.mp accepted
    rw [List.flatMap_cons, List.append_assoc] at h
    obtain ⟨k, hk⟩ := ih accepted (drop_args h)
    refine ⟨k, ?_⟩
    rw [optionLoop_piece wf h, run]
    exact hk

/-- The loop reads behind the array on exactly the unfinished arguments. -/
theorem optionLoop_inBounds_iff (argv : List Bytes) (i : Nat) (o : SvrOpts) :
    InBounds (optionLoop argv i o) ↔
      ¬ Unfinished o.ports.length o.hostkeyFiles.length (argv.drop i) := by
  constructor
  · rintro inBounds ⟨ps, fs, x, accepted, flags, waits, h⟩
    obtain ⟨k, hk⟩ := optionLoop_reads accepted flags waits h
    exact inBounds k hk
  · intro finished
    -- the induction is on the number of arguments that are left
    generalize hn : argv.length - i = n
    induction n using Nat.strong_induction_on generalizing i o with
    | _ n ih =>
      rcases optionLoop_cases argv i o with
        ⟨p, rest, wf, h⟩ | ⟨fs, x, flags, waits, h⟩ | h | ⟨e, he, inside⟩
      · cases run : p.run o with
        | error e =>
          rw [optionLoop_piece wf h, run]
          intro k hk
          exact p.run_inBounds o k (run.trans hk)
        | ok o' =>
          have fewer : argv.length - (i + p.args.length) < n := hn ▸ fewer_left h
          rw [optionLoop_piece wf h, run]
          refine ih _ fewer _ o' ?_ rfl
          rintro ⟨ps, fs, x, accepted, flags, waits, tail⟩
          refine finished ⟨p :: ps, fs, x, accepted_cons.mpr ⟨wf, o', run, accepted⟩, flags, waits, ?_⟩
          rw [drop_args h] at tail
          rw [h, tail, List.flatMap_cons, List.append_assoc]
      · have none : Accepted o.ports.length o.hostkeyFiles.length [] :=
          ⟨by simp, by simp, Nat.zero_le _⟩
        exact absurd ⟨[], fs, x, none, flags, waits, h⟩ finished
      · rw [optionLoop_end h]
        intro k
        simp
      · rw [he]
        exact fun k hk => inside k (Except.error.inj hk)

/-- The option loop stays within the arguments that `startSshd` built, unless these are
accepted options and one last argument that waits for its value. -/
theorem argv_in_bounds_iff (options : JString) (port : Int32) :
    (∀ i, svrGetoptsLoop (startSshdArgv options port) ≠ .error (.outOfBounds i)) ↔
      ¬ Unfinished 0 0 ((startSshdArgv options port).drop 1) :=
  optionLoop_inBounds_iff _ _ _

/-- With the single extra option `-b`, the arguments are `sshd -e -R -F -p 8022 -b`, and
the loop reads `argv[7]`. -/
theorem missing_argument_read :
    ¬ ∀ (options : JString) (port : Int32) (i : Nat),
      svrGetoptsLoop (startSshdArgv options port) ≠ .error (.outOfBounds i) := by
  intro claim
  have read : (match svrGetoptsLoop (startSshdArgv (jlit "-b") 8022) with
      | .error e => e
      | .ok _ => .success) = .outOfBounds 7 := by decide +kernel
  split at read
  · rename_i e he
    exact claim _ _ 7 (read ▸ he)
  · cases read

end Ikofi.Options
