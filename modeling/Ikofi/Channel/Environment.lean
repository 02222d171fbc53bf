import Ikofi.Lib.Cut
import Ikofi.Lib.Scan
import Ikofi.Text

/-!
# The environment of a child

`ikofi_set_env` walks over the list of the user's variables with one pointer, and
calls `setenv` for what it finds. The list is meant as lines, with a name and a value
in each.
-/

namespace Ikofi.Channel

open Scan Terminated Cut

abbrev CString := Terminated (0 : UInt8)

abbrev Env := Bytes → Option Bytes

/-- `setenv` with `overwrite` set. It refuses a name that is empty or holds `=`. -/
def setenv (env : Env) (call : Bytes × Bytes) : Env :=
  if call.1 = [] ∨ 61 ∈ call.1 then env else Function.update env call.1 (some call.2)

def isLineBreak (b : UInt8) : Bool := b == 13 || b == 10

/-- One turn of the loop: the name and the value, and where `s` stands behind them. -/
def readPair (list : CString) (s : Nat) : Except Nat ((Bytes × Bytes) × Nat) := do
  let name := s
  let s ← span (fun b => b != 0 && b != 61 && b != 13 && b != 10) list s
  let nameEnd := s
  let (val, s) ←
    if (← list.deref s) = 61 then do
      let val := s + 1
      let s ← span (fun b => b != 0 && b != 13 && b != 10) list (s + 1)
      pure (list.slice val s, s)
    else pure ([], s)
  let s ← span isLineBreak list s
  return ((list.slice name nameEnd, val), s)

/-! A text is its first line, a run of line breaks, and the lines behind it. -/

def firstLine (text : Bytes) : Bytes := text.takeWhile (! isLineBreak ·)

def lineBreaks (text : Bytes) : Bytes := (text.dropWhile (! isLineBreak ·)).takeWhile isLineBreak

def nextLines (text : Bytes) : Bytes := (text.dropWhile (! isLineBreak ·)).dropWhile isLineBreak

/-- A line as a name and a value. -/
def assignment (line : Bytes) : Bytes × Bytes :=
  (line.takeWhile (· != 61), (line.dropWhile (· != 61)).tail)

section
variable {list : CString} {s : Nat} {line breaks rest : Bytes}

theorem not_isLineBreak {b : UInt8} : isLineBreak b = false ↔ b ≠ 13 ∧ b ≠ 10 := by
  simp [isLineBreak]

/-- Behind a line stands a line break, or the terminator. -/
theorem behind_line (all : ∀ b ∈ breaks, isLineBreak b = true) (more : breaks = [] → rest = []) :
    (breaks ++ rest).headD 0 = 0 ∨ (breaks ++ rest).headD 0 = 13 ∨ (breaks ++ rest).headD 0 = 10 := by
  cases breaks with
  | nil => exact Or.inl (by rw [more rfl]; rfl)
  | cons b breaks => exact Or.inr (by simpa [isLineBreak] using all b (by simp))

/-- What ends a line ends a name and a value. -/
theorem ends_line {e : UInt8} (h : e = 0 ∨ e = 13 ∨ e = 10) :
    (e != 0 && e != 61 && e != 13 && e != 10) = false ∧ (e != 0 && e != 13 && e != 10) = false ∧
      e ≠ 61 := by
  rcases h with rfl | rfl | rfl <;> decide

/-- One turn of the loop reads one line. -/
theorem readPair_eq (h : At list s (line ++ (breaks ++ rest)))
    (plain : ∀ b ∈ line, isLineBreak b = false) (all : ∀ b ∈ breaks, isLineBreak b = true)
    (more : breaks = [] → rest = []) (stops : isLineBreak (rest.headD 0) = false) :
    readPair list s = .ok (assignment line, s + line.length + breaks.length) := by
  obtain ⟨endsName, endsValue, equals⟩ := ends_line (behind_line all more)
  have inside : ∀ b ∈ line, b ≠ 0 ∧ b ≠ 13 ∧ b ≠ 10 := fun b hb =>
    ⟨h.ne_stop (by simp [hb]), not_isLineBreak.mp (plain b hb)⟩
  have skipped := h.move.span all stops
  obtain ⟨name, hn⟩ : ∃ name, line.takeWhile (· != 61) = name := ⟨_, rfl⟩
  have inName : ∀ b ∈ name, b ∈ line ∧ b ≠ 61 := by
    rintro b hb
    rw [← hn] at hb
    exact ⟨(List.takeWhile_prefix _).mem hb, by simpa using List.mem_takeWhile_imp hb⟩
  have nameAll : ∀ b ∈ name, (b != 0 && b != 61 && b != 13 && b != 10) = true := by
    intro b hb
    obtain ⟨mem, equals⟩ := inName b hb
    simp [inside b mem, equals]
  have cut := line.takeWhile_append_dropWhile (p := (· != 61))
  unfold readPair assignment
  rw [hn] at cut ⊢
  cases tail : line.dropWhile (· != 61) with
  | nil =>
    -- the line is a name alone
    rw [tail, List.append_nil] at cut
    subst cut
    simp only [bind, Except.bind, pure, Except.pure, h.span nameAll endsName, h.move.deref, equals,
      if_false, skipped, h.slice, List.tail_nil]
  | cons b value =>
    have first := List.head_dropWhile_not (p := (· != 61)) (l := line) (by simp [tail])
    simp only [tail, List.head_cons, bne_eq_false_iff_eq] at first
    subst first
    rw [tail] at cut
    subst cut
    rw [List.append_assoc] at h
    have valueAll : ∀ b ∈ value, (b != 0 && b != 13 && b != 10) = true := by
      intro b hb
      simp [inside b (by simp [hb])]
    have equalsSign : At list (s + name.length) ([61] ++ (value ++ (breaks ++ rest))) := h.move
    have atValue : At list (s + name.length + 1) (value ++ (breaks ++ rest)) := equalsSign.move
    have length : s + (name ++ 61 :: value).length = s + name.length + 1 + value.length := by
      simp only [List.length_append, List.length_cons]
      omega
    rw [length] at skipped ⊢
    simp only [bind, Except.bind, pure, Except.pure, h.span nameAll (by simp), h.move.deref,
      List.cons_append, List.headD_cons, if_true, atValue.span valueAll endsValue, atValue.slice, skipped,
      h.slice, List.tail_cons]

theorem text_cut (text : Bytes) : text = firstLine text ++ (lineBreaks text ++ nextLines text) := by
  rw [lineBreaks, nextLines, List.takeWhile_append_dropWhile, firstLine,
    List.takeWhile_append_dropWhile]

theorem firstLine_plain (text : Bytes) : ∀ b ∈ firstLine text, isLineBreak b = false := by
  intro b hb
  simpa using List.mem_takeWhile_imp hb

theorem lineBreaks_all (text : Bytes) : ∀ b ∈ lineBreaks text, isLineBreak b = true :=
  fun _ hb => List.mem_takeWhile_imp hb

theorem nextLines_of_none {text : Bytes} (none : lineBreaks text = []) : nextLines text = [] := by
  unfold lineBreaks at none
  unfold nextLines
  cases behind : text.dropWhile (! isLineBreak ·) with
  | nil => rfl
  | cons b rest =>
    have first := List.head_dropWhile_not (p := (! isLineBreak ·)) (l := text) (by simp [behind])
    simp only [behind, List.head_cons, Bool.not_eq_false'] at first
    rw [behind, List.takeWhile_cons_of_pos first] at none
    cases none

theorem nextLines_head (text : Bytes) : isLineBreak ((nextLines text).headD 0) = false := by
  unfold nextLines
  cases behind : (text.dropWhile (! isLineBreak ·)).dropWhile isLineBreak with
  | nil => rfl
  | cons b rest =>
    have first := List.head_dropWhile_not (p := isLineBreak)
      (l := text.dropWhile (! isLineBreak ·)) (by simp [behind])
    simpa [behind] using first

theorem length_nextLines {text : Bytes} (filled : text ≠ []) :
    (nextLines text).length < text.length := by
  have cut := text_cut text
  have lengths := congrArg List.length cut
  rw [List.length_append, List.length_append] at lengths
  by_contra same
  have line : firstLine text = [] := List.length_eq_zero_iff.mp (by omega)
  have breaks : lineBreaks text = [] := List.length_eq_zero_iff.mp (by omega)
  rw [line, breaks, nextLines_of_none breaks] at cut
  exact filled cut

/-- The turn of the loop at the front of a text. -/
theorem readPair_text {text : Bytes} (h : At list s text) :
    ∃ next, readPair list s = .ok (assignment (firstLine text), next) ∧
      At list next (nextLines text) ∧ (text ≠ [] → s < next) := by
  have here := h
  rw [text_cut text] at here
  refine ⟨_, readPair_eq here (firstLine_plain text) (lineBreaks_all text) nextLines_of_none
    (nextLines_head text), here.move.move, fun filled => ?_⟩
  have shorter := length_nextLines filled
  have lengths := congrArg List.length (text_cut text)
  rw [List.length_append, List.length_append] at lengths
  omega

/-- The loop goes on behind where it was. -/
theorem readPair_advances {b : UInt8} {call : Bytes × Bytes} {next : Nat}
    (hb : list.deref s = .ok b) (filled : b ≠ 0) (hp : readPair list s = .ok (call, next)) :
    s < next ∧ s < list.block.length := by
  have here := At.of_deref hb
  obtain ⟨next', hn, -, advances⟩ := readPair_text here
  cases hp.symm.trans hn
  refine ⟨advances ?_, Nat.lt_of_le_of_lt here.inside text_length_lt⟩
  intro none
  rw [here.deref, none] at hb
  cases hb
  exact filled rfl

end

/-- The calls of `setenv` in the loop, from `s` on. -/
def setEnvLoop (list : CString) (s : Nat) : Except Nat (List (Bytes × Bytes)) :=
  match _hb : list.deref s with
  | .error e => .error e
  | .ok b =>
    if _filled : b = 0 then .ok []
    else
      match _hp : readPair list s with
      | .error e => .error e
      | .ok (call, next) =>
        (setEnvLoop list next).map fun calls => if call.1.length ≠ 0 then call :: calls else calls
termination_by list.block.length - s
decreasing_by
  have := readPair_advances _hb _filled _hp
  omega

def ikofiConfDir : Bytes := lit "IKOFI_CONF_DIR"

/-- `ikofi_set_env`; the list may be a null pointer. -/
def ikofiSetEnv (envVarList : Option CString) (confPath : Bytes) : Except Nat (List (Bytes × Bytes)) :=
  match envVarList with
  | none => .ok []
  | some list => (setEnvLoop list 0).map (· ++ [(ikofiConfDir, confPath)])

/-- The environment after calls of `setenv`. -/
def environment (env : Env) (calls : List (Bytes × Bytes)) : Env := calls.foldl setenv env

/-- The variables of a list: its lines, split at their first `=`, without those that have
no name. -/
def envVars (text : Bytes) : List (Bytes × Bytes) :=
  ((pieces isLineBreak text).map assignment).filter (·.1 ≠ [])

/-- The variables are set, whatever their names are. -/
def update (env : Env) (vars : List (Bytes × Bytes)) : Env :=
  vars.foldl (fun env v => Function.update env v.1 (some v.2)) env

section
variable {list : CString} {s : Nat} {text : Bytes}

theorem setEnvLoop_nil (h : At list s []) : setEnvLoop list s = .ok [] := by
  rw [setEnvLoop]
  split
  · rename_i e he
    rw [h.deref] at he
    cases he
  · rename_i b hb
    rw [h.deref] at hb
    cases hb
    rfl

theorem setEnvLoop_line (h : At list s text) (filled : text ≠ []) :
    ∃ next, At list next (nextLines text) ∧ setEnvLoop list s =
      (setEnvLoop list next).map fun calls =>
        if (assignment (firstLine text)).1.length ≠ 0 then assignment (firstLine text) :: calls
        else calls := by
  obtain ⟨next, hn, there, -⟩ := readPair_text h
  refine ⟨next, there, ?_⟩
  obtain ⟨b, text, rfl⟩ := List.exists_cons_of_ne_nil filled
  have first : b ≠ 0 := h.ne_stop (by simp)
  rw [setEnvLoop]
  split
  · rename_i e he
    rw [h.deref] at he
    cases he
  · rename_i b' hb
    rw [h.deref] at hb
    cases hb
    rw [dif_neg (by exact first)]
    split
    · rename_i e he
      rw [hn] at he
      cases he
    · rename_i call next' hp
      rw [hn] at hp
      cases hp
      rfl

/-- The first line of a list, if it has a name, and its other variables. -/
theorem envVars_line (text : Bytes) :
    envVars text = if (assignment (firstLine text)).1.length ≠ 0
      then assignment (firstLine text) :: envVars (nextLines text) else envVars (nextLines text) := by
  have ends : ∀ b ∈ (lineBreaks text ++ nextLines text).head?, isLineBreak b = true := by
    intro b hb
    cases breaks : lineBreaks text with
    | nil =>
      rw [breaks, nextLines_of_none breaks] at hb
      cases hb
    | cons c cs =>
      rw [breaks] at hb
      obtain rfl : c = b := Option.some.inj hb
      exact lineBreaks_all text c (by simp [breaks])
  have cut : pieces isLineBreak text =
      (if firstLine text = [] then [] else [firstLine text]) ++ pieces isLineBreak (nextLines text) := by
    conv_lhs => rw [text_cut text]
    rw [pieces_append (firstLine_plain text) ends, pieces_skip (lineBreaks_all text)]
  unfold envVars
  rw [cut]
  by_cases line : firstLine text = []
  · simp [line, assignment]
  · by_cases name : (assignment (firstLine text)).1 = []
    · simp [line, name]
    · simp [line, name]

theorem setEnvLoop_eq (h : At list s text) : setEnvLoop list s = .ok (envVars text) := by
  induction hn : text.length using Nat.strong_induction_on generalizing s text with
  | _ n ih =>
    by_cases empty : text = []
    · subst empty
      rw [setEnvLoop_nil h]
      rfl
    · obtain ⟨next, there, loop⟩ := setEnvLoop_line h empty
      rw [loop, ih _ (hn ▸ length_nextLines empty) there rfl, envVars_line text]
      rfl

/-- A name is never empty, and ends before the first `=`. -/
theorem envVars_named {v : Bytes × Bytes} (h : v ∈ envVars text) : v.1 ≠ [] ∧ 61 ∉ v.1 := by
  obtain ⟨mem, named⟩ := List.mem_filter.mp h
  obtain ⟨line, -, rfl⟩ := List.mem_map.mp mem
  refine ⟨by simpa using named, fun equals => ?_⟩
  simpa using List.mem_takeWhile_imp equals

theorem environment_eq {env : Env} {calls : List (Bytes × Bytes)}
    (named : ∀ v ∈ calls, v.1 ≠ [] ∧ 61 ∉ v.1) : environment env calls = update env calls := by
  induction calls generalizing env with
  | nil => rfl
  | cons v calls ih =>
    rw [List.forall_mem_cons] at named
    have set : setenv env v = Function.update env v.1 (some v.2) := by
      rw [setenv, if_neg (by simp [named.1])]
    rw [environment, List.foldl_cons, set]
    exact ih named.2

/-- The list is read up to its NUL and no further, every name that is handed to `setenv`
is one, and the environment is the one from before with the variables of the list and,
last, the configuration directory. -/
theorem set_env_grammar (list : CString) (confPath : Bytes) (env : Env) :
    ∃ calls, ikofiSetEnv (some list) confPath = .ok calls ∧
      (∀ v ∈ calls, v.1 ≠ [] ∧ 61 ∉ v.1) ∧
      environment env calls =
        Function.update (update env (envVars list.text)) ikofiConfDir (some confPath) := by
  have confDir : ikofiConfDir ≠ [] ∧ 61 ∉ ikofiConfDir := by decide
  have named : ∀ v ∈ envVars list.text ++ [(ikofiConfDir, confPath)], v.1 ≠ [] ∧ 61 ∉ v.1 := by
    intro v hv
    rcases List.mem_append.mp hv with hv | hv
    · exact envVars_named hv
    · obtain rfl := List.mem_singleton.mp hv
      exact confDir
  refine ⟨_, ?_, named, ?_⟩
  · rw [ikofiSetEnv, setEnvLoop_eq (.start list)]
    rfl
  · rw [environment_eq named, update, List.foldl_append]
    rfl

end

example : envVars (lit "\r\nA=1=2\r\n=x\nB") = [(lit "A", lit "1=2"), (lit "B", [])] := by
  decide +kernel

end Ikofi.Channel
