import Ikofi.PasswordFile.Native
import Ikofi.PasswordFile.Settings

/-!
# The two readers of `master_password`

Both readers cut the same text, one as bytes and one as UTF-16 units, so both
are followed on its characters. `strtok_r` skips runs of colons and keeps the
newline of the line; `split` keeps empty fields before the last one and the
line ends with any of `\n`, `\r` and `\r\n`.
-/

namespace Ikofi.PasswordFile

open Cut

/-- The Java reader returns exactly the two non-empty fields `a` and `b`. -/
def Returns (debug : Bool) (file : Option Bytes) (a b : JString) : Prop :=
  readPasswordFile debug file = .ok (some [a, b]) ∧ a ≠ [] ∧ b ≠ []

def ReadersAgree (debug : Bool) (file : Option Bytes) : Prop :=
  ((∃ u h, Delivers file u h) ↔ ∃ a b, Returns debug file a b) ∧
  ∀ u h a b, Delivers file u h → Returns debug file a b → u = utf8 a ∧ h = utf8 b

/-- The line that `strtok_r` sees. -/
def nativeLine (content : List Char) : List Char :=
  (content.takeWhile (· != '\n') ++ (content.dropWhile (· != '\n')).take 1).takeWhile (· != '\x00')

def javaLine (content : List Char) : List Char :=
  content.takeWhile fun c => !(c == '\n' || c == '\r')

theorem marks_colon : Marks String.utf8EncodeChar (· == ':') isColon := marks_utf8 (by decide)

theorem marks_newline : Marks String.utf8EncodeChar (· == '\n') (· == 10) := marks_utf8 (by decide)

theorem marks_nul : Marks String.utf8EncodeChar (· == '\x00') (· == 0) := marks_utf8 (by decide)

theorem marks_colon16 : Marks utf16EncodeChar (· == ':') (· == 58) := marks_utf16 (by decide)

theorem marks_lineEnd : Marks utf16EncodeChar (fun c => c == '\n' || c == '\r') isLineEnd :=
  (marks_utf16 (by decide)).or (marks_utf16 (by decide))

theorem getline_utf8 {content : List Char} (filled : content ≠ []) :
    ∃ read, getline (utf8Encode content) = some read ∧
      cstr read = utf8Encode (nativeLine content) := by
  have read : getline (utf8Encode content) =
      some (utf8Encode (content.takeWhile (· != '\n') ++ (content.dropWhile (· != '\n')).take 1)) := by
    have some : (utf8Encode content).isEmpty = false := by
      simpa [utf8Encode] using mt marks_newline.flatMap_eq_nil.mp filled
    have line := marks_newline.takeWhile_flatMap content
    have stop := (marks_newline.stop_flatMap content).1
    rw [getline, some, if_neg (by simp)]
    exact congrArg _ ((congr (congrArg _ line) stop).trans List.flatMap_append.symm)
  exact ⟨_, read, marks_nul.takeWhile_flatMap _⟩

/-- The native reader on the characters of the file. -/
theorem delivers_iff {content : List Char} {u h : Bytes} :
    Delivers (some (utf8Encode content)) u h ↔
      ∃ a b, firstTwo (· == ':') (nativeLine content) = some (a, b) ∧
        u = utf8Encode a ∧ h = utf8Encode b := by
  by_cases filled : content = []
  · subst filled
    have none : firstTwo (· == ':') (nativeLine []) = none := rfl
    simp [Delivers, ikofiGetUserPassword, getline, utf8Encode, none]
  · obtain ⟨read, hr, line⟩ := getline_utf8 filled
    simp only [Delivers, ikofiGetUserPassword, hr, line]
    generalize nativeLine content = cs
    have colon : (utf8Encode cs).any isColon = cs.any (· == ':') := marks_colon.any_flatMap cs
    have tok : ∀ xs, token isColon (utf8Encode xs) =
        (token (· == ':') xs).map (Prod.map utf8Encode utf8Encode) :=
      marks_colon.token_flatMap
    rw [colon, tok]
    cases hc : cs.any (· == ':') with
    | false =>
      have none : firstTwo (· == ':') cs = none :=
        firstTwo_eq_none.mpr ⟨[], cs, [], by simp, by simp, by simpa using hc, by simp⟩
      simp [none]
    | true =>
      simp only [if_true, firstTwo]
      cases token (· == ':') cs with
      | none => simp
      | some t =>
        simp only [Option.map_some, Prod.map, tok, Option.bind_some]
        cases token (· == ':') t.2 <;> simp [eq_comm]

theorem lines_utf16 {content : List Char} (filled : content ≠ []) :
    ∃ rest, lines (utf16Encode content) = utf16Encode (javaLine content) :: rest := by
  have some : utf16Encode content ≠ [] := mt marks_lineEnd.flatMap_eq_nil.mp filled
  rw [lines, dif_neg some]
  exact ⟨_, congrArg (· :: _) (marks_lineEnd.takeWhile_flatMap content)⟩

section
variable {debug : Bool} {file : Option Bytes} {content : List Char}

theorem readPasswordFile_empty : readPasswordFile debug (some (utf8Encode [])) = .ok none := by
  have none : lines (utf16Encode []) = [] := lines_nil
  simp [readPasswordFile, readAllLines, utf8Decode_encode, none]

theorem readPasswordFile_filled (filled : content ≠ []) :
    readPasswordFile debug (some (utf8Encode content)) =
      if debug && decide ((fields (· == ':') (javaLine content)).length < 2)
      then .error .arrayIndexOutOfBounds
      else .ok (some ((fields (· == ':') (javaLine content)).map utf16Encode)) := by
  obtain ⟨rest, hl⟩ := lines_utf16 filled
  have cut : split (utf16Encode (javaLine content)) =
      (fields (· == ':') (javaLine content)).map utf16Encode :=
    marks_colon16.fields_flatMap _
  simp only [readPasswordFile, Option.bind_some, readAllLines, utf8Decode_encode,
    Option.map_some, hl, cut, List.length_map]

/-- What the Java reader returns are the fields of a text; a file that cannot be opened
or decoded has none. -/
theorem fields_of_read {up : List JString} (read : readPasswordFile debug file = .ok (some up)) :
    ∃ content, file = some (utf8Encode content) ∧
      up = (fields (· == ':') (javaLine content)).map utf16Encode := by
  cases file with
  | none => cases read
  | some bytes =>
    cases decoded : utf8Decode bytes with
    | none => simp [readPasswordFile, readAllLines, decoded] at read
    | some content =>
      obtain rfl := eq_utf8Encode_of_decode decoded
      by_cases filled : content = []
      · rw [filled, readPasswordFile_empty] at read
        cases read
      · rw [readPasswordFile_filled filled] at read
        split at read <;> cases read
        exact ⟨content, rfl, rfl⟩

/-- The Java reader on the characters of the file. -/
theorem returns_iff {a b : JString} : Returns debug (some (utf8Encode content)) a b ↔
    ∃ c d, fields (· == ':') (javaLine content) = [c, d] ∧ c ≠ [] ∧ d ≠ [] ∧
      a = utf16Encode c ∧ b = utf16Encode d := by
  have empty : ∀ cs, utf16Encode cs = [] ↔ cs = [] := fun cs => marks_colon16.flatMap_eq_nil
  by_cases filled : content = []
  · subst filled
    have line : fields (· == ':') (javaLine []) = [[]] := rfl
    simp [Returns, readPasswordFile_empty, line]
  · simp only [Returns, readPasswordFile_filled filled]
    generalize fields (· == ':') (javaLine content) = fs
    match fs with
    | [] | [_] => cases debug <;> simp
    | [c, d] =>
      simp only [List.map_cons, List.map_nil, List.length_cons, List.length_nil, Nat.lt_irrefl,
        decide_false, Bool.and_false, Bool.false_eq_true, if_false, Except.ok.injEq,
        Option.some.injEq, List.cons.injEq, and_true]
      constructor
      · rintro ⟨⟨rfl, rfl⟩, hc, hd⟩
        exact ⟨c, d, ⟨rfl, rfl⟩, mt (empty c).mpr hc, mt (empty d).mpr hd, rfl, rfl⟩
      · rintro ⟨_, _, ⟨rfl, rfl⟩, hc, hd, rfl, rfl⟩
        exact ⟨⟨rfl, rfl⟩, mt (empty c).mp hc, mt (empty d).mp hd⟩
    | _ :: _ :: _ :: rest =>
      have long : ¬ rest.length + 1 + 1 + 1 < 2 := by omega
      simp [long]

end

def JavaPair (content a b : List Char) : Prop :=
  fields (· == ':') (javaLine content) = [a, b] ∧ a ≠ [] ∧ b ≠ []

theorem utf8Encode_inj {a b : List Char} (h : utf8Encode a = utf8Encode b) : a = b := by
  have := congrArg utf8Decode h
  simpa [utf8Decode_encode] using this

/-- The readers agree when they find the same two fields among the characters. -/
theorem readersAgree_iff_same {debug : Bool} {content : List Char} :
    ReadersAgree debug (some (utf8Encode content)) ↔
      ∀ a b, firstTwo (· == ':') (nativeLine content) = some (a, b) ↔ JavaPair content a b := by
  simp only [ReadersAgree, delivers_iff, returns_iff]
  constructor
  · rintro ⟨both, same⟩ a b
    constructor
    · intro h
      obtain ⟨_, _, c, d, hf, hc, hd, rfl, rfl⟩ := both.mp ⟨_, _, a, b, h, rfl, rfl⟩
      obtain ⟨ha, hb⟩ := same _ _ _ _ ⟨a, b, h, rfl, rfl⟩ ⟨c, d, hf, hc, hd, rfl, rfl⟩
      rw [utf8_utf16Encode] at ha hb
      rw [utf8Encode_inj ha, utf8Encode_inj hb]
      exact ⟨hf, hc, hd⟩
    · rintro ⟨hf, ha, hb⟩
      obtain ⟨_, _, c, d, h, rfl, rfl⟩ := both.mpr ⟨_, _, a, b, hf, ha, hb, rfl, rfl⟩
      obtain ⟨hc, hd⟩ := same _ _ _ _ ⟨c, d, h, rfl, rfl⟩ ⟨a, b, hf, ha, hb, rfl, rfl⟩
      rw [utf8_utf16Encode] at hc hd
      rw [← utf8Encode_inj hc, ← utf8Encode_inj hd, h]
  · intro same
    refine ⟨⟨?_, ?_⟩, ?_⟩
    · rintro ⟨_, _, a, b, h, -, -⟩
      obtain ⟨hf, ha, hb⟩ := (same a b).mp h
      exact ⟨_, _, a, b, hf, ha, hb, rfl, rfl⟩
    · rintro ⟨_, _, a, b, hf, ha, hb, -, -⟩
      exact ⟨_, _, a, b, (same a b).mpr ⟨hf, ha, hb⟩, rfl, rfl⟩
    · rintro _ _ _ _ ⟨a, b, h, rfl, rfl⟩ ⟨c, d, hf, hc, hd, rfl, rfl⟩
      have h' := (same c d).mpr ⟨hf, hc, hd⟩
      rw [h] at h'
      obtain ⟨rfl, rfl⟩ : a = c ∧ b = d := by simpa using h'
      simp [utf8_utf16Encode]

/-- A field that both readers see whole. -/
def PlainField (a : List Char) : Prop :=
  a ≠ [] ∧ ∀ c ∈ a, c ≠ ':' ∧ c ≠ '\n' ∧ c ≠ '\r' ∧ c ≠ '\x00'

/-- Two plain fields around a colon, then colons, and then the end of the file or,
after at least one of those colons, a line end. -/
def TwoFields (content : List Char) : Prop :=
  ∃ a b k rest, PlainField a ∧ PlainField b ∧
    content = a ++ ':' :: (b ++ List.replicate k ':' ++ rest) ∧
    (rest = [] ∨ 1 ≤ k ∧ ∃ c ∈ rest.head?, c = '\n' ∨ c = '\r')

/-- The native line has at most one run of characters between colons, and the
Java line is not two fields around a colon with only colons after them. -/
def NoFields (content : List Char) : Prop :=
  (∃ i x j, nativeLine content = List.replicate i ':' ++ x ++ List.replicate j ':' ∧ ':' ∉ x) ∧
  ¬ ∃ a b k, a ≠ [] ∧ b ≠ [] ∧ ':' ∉ a ∧ ':' ∉ b ∧
    javaLine content = a ++ ':' :: (b ++ List.replicate k ':')

theorem colons {xs : List Char} (h : ∀ c ∈ xs, (c == ':') = true) :
    xs = List.replicate xs.length ':' :=
  List.eq_replicate_of_mem fun c hc => eq_of_beq (h c hc)

theorem javaPair_iff {content a b : List Char} :
    JavaPair content a b ↔ a ≠ [] ∧ b ≠ [] ∧ ':' ∉ a ∧ ':' ∉ b ∧
      ∃ k, javaLine content = a ++ ':' :: (b ++ List.replicate k ':') := by
  have plain : ∀ xs : List Char, (∀ c ∈ xs, (c == ':') = false) ↔ ':' ∉ xs := by
    intro xs
    simp [List.forall_mem_ne']
  constructor
  · rintro ⟨hf, ha, hb⟩
    obtain ⟨pa, pb, s, seps, hs, only, line⟩ := (fields_eq_pair hb).mp hf
    refine ⟨ha, hb, (plain a).mp pa, (plain b).mp pb, seps.length, ?_⟩
    rw [line, eq_of_beq hs, ← colons only]
  · rintro ⟨ha, hb, pa, pb, k, line⟩
    refine ⟨(fields_eq_pair hb).mpr ⟨(plain a).mpr pa, (plain b).mpr pb, ':', _, rfl, ?_, line⟩, ha, hb⟩
    simp +contextual

theorem firstTwo_none_iff {content : List Char} :
    firstTwo (· == ':') (nativeLine content) = none ↔
      ∃ i x j, nativeLine content = List.replicate i ':' ++ x ++ List.replicate j ':' ∧ ':' ∉ x := by
  rw [firstTwo_eq_none]
  constructor
  · rintro ⟨sep, x, sep', line, seps, plain, seps'⟩
    refine ⟨sep.length, x, sep'.length, ?_, fun h => by simpa using plain ':' h⟩
    rw [line, ← colons seps, ← colons seps']
  · rintro ⟨i, x, j, line, plain⟩
    refine ⟨_, x, _, line, by simp, fun c hc => ?_, by simp⟩
    simpa using ne_of_mem_of_not_mem hc plain

theorem nativeLine_append {ys zs : List Char} (h : ∀ c ∈ ys, c ≠ '\n' ∧ c ≠ '\x00') :
    nativeLine (ys ++ zs) = ys ++ nativeLine zs := by
  have line : ∀ c ∈ ys, (c != '\n') = true := fun c hc => by simpa using (h c hc).1
  have text : ∀ c ∈ ys, (c != '\x00') = true := fun c hc => by simpa using (h c hc).2
  simp only [nativeLine]
  rw [List.takeWhile_append_of_pos line, List.dropWhile_append_of_pos line, List.append_assoc,
    List.takeWhile_append_of_pos text]

theorem nativeLine_nul {content : List Char} : '\x00' ∉ nativeLine content := by
  intro h
  simpa using List.mem_takeWhile_imp h

theorem firstTwo_append {a b rest : List Char} (ha : a ≠ []) (hb : b ≠ []) (pa : ':' ∉ a)
    (pb : ':' ∉ b) (stop : ∀ c ∈ rest.head?, c = ':') :
    firstTwo (· == ':') (a ++ ':' :: (b ++ rest)) = some (a, b) := by
  have plain : ∀ xs : List Char, ':' ∉ xs → ∀ c ∈ xs, (c == ':') = false := by
    intro xs h c hc
    simpa using ne_of_mem_of_not_mem hc h
  have first : token (· == ':') (a ++ ':' :: (b ++ rest)) = some (a, b ++ rest) :=
    token_append (p := (· == ':')) (by simp : ∀ c ∈ [], (c == ':') = true) ha (plain a pa) (by simp)
  have second : token (· == ':') (b ++ rest) = some (b, rest.tail) :=
    token_append (p := (· == ':')) (by simp : ∀ c ∈ [], (c == ':') = true) hb (plain b pb) (by simpa using stop)
  exact firstTwo_eq_some.mpr ⟨_, _, first, second⟩

/-- Where the file is two plain fields, both readers find them. -/
theorem TwoFields.found {content : List Char} (h : TwoFields content) :
    ∃ a b, firstTwo (· == ':') (nativeLine content) = some (a, b) ∧ JavaPair content a b := by
  obtain ⟨a, b, k, rest, ⟨ha, pa⟩, ⟨hb, pb⟩, rfl, hr⟩ := h
  have colonA : ':' ∉ a := fun h => (pa _ h).1 rfl
  have colonB : ':' ∉ b := fun h => (pb _ h).1 rfl
  have shape : a ++ ':' :: (b ++ List.replicate k ':' ++ rest) =
      (a ++ ':' :: (b ++ List.replicate k ':')) ++ rest := by simp
  have inside : ∀ c ∈ a ++ ':' :: (b ++ List.replicate k ':'),
      c ≠ '\n' ∧ c ≠ '\r' ∧ c ≠ '\x00' := by
    intro c hc
    simp only [List.mem_append, List.mem_cons, List.mem_replicate] at hc
    rcases hc with hc | rfl | hc | ⟨-, rfl⟩
    · exact (pa c hc).2
    · decide
    · exact (pb c hc).2
    · decide
  refine ⟨a, b, ?_, javaPair_iff.mpr ⟨ha, hb, colonA, colonB, k, ?_⟩⟩
  · rw [shape, nativeLine_append fun c hc => ⟨(inside c hc).1, (inside c hc).2.2⟩, List.append_assoc,
      List.cons_append, List.append_assoc]
    refine firstTwo_append ha hb colonA colonB ?_
    rcases hr with rfl | ⟨hk, -⟩
    · cases k with
      | zero => simp [nativeLine]
      | succ k => simp [List.replicate_succ]
    · obtain ⟨k, rfl⟩ : ∃ n, k = n + 1 := ⟨k - 1, by omega⟩
      simp [List.replicate_succ]
  · have before : ∀ c ∈ a ++ ':' :: (b ++ List.replicate k ':'),
        (!(c == '\n' || c == '\r')) = true := by
      intro c hc
      simp [(inside c hc).1, (inside c hc).2.1]
    have after : rest.takeWhile (fun c => !(c == '\n' || c == '\r')) = [] := by
      rcases hr with rfl | ⟨-, c, hc, hn⟩
      · rfl
      · obtain ⟨r, rfl⟩ := List.head?_eq_some_iff.mp hc
        rcases hn with rfl | rfl <;> simp
    rw [shape, javaLine, List.takeWhile_append_of_pos before, after, List.append_nil]

/-- The native reader keeps a line end as part of the hash before it. -/
theorem nativeLine_lineEnd {a b r : List Char} {c : Char} (pa : PlainField a) (pb : PlainField b)
    (stop : c = '\n' ∨ c = '\r') :
    ∃ t, firstTwo (· == ':') (nativeLine (a ++ ':' :: (b ++ c :: r))) = some (a, b ++ c :: t) := by
  have colonA : ':' ∉ a := fun h => (pa.2 _ h).1 rfl
  have colonB : ':' ∉ b := fun h => (pb.2 _ h).1 rfl
  have inside : ∀ d ∈ a ++ ':' :: b, d ≠ '\n' ∧ d ≠ '\x00' := by
    intro d hd
    simp only [List.mem_append, List.mem_cons] at hd
    rcases hd with hd | rfl | hd
    · exact ⟨(pa.2 d hd).2.1, (pa.2 d hd).2.2.2⟩
    · decide
    · exact ⟨(pb.2 d hd).2.1, (pb.2 d hd).2.2.2⟩
  have kept : ∃ t, nativeLine (c :: r) = c :: t := by
    rcases stop with rfl | rfl <;> simp [nativeLine]
  obtain ⟨t, ht⟩ := kept
  have line : nativeLine (a ++ ':' :: (b ++ c :: r)) =
      a ++ ':' :: ((b ++ c :: t.takeWhile (· != ':')) ++ t.dropWhile (· != ':')) := by
    have shape : a ++ ':' :: (b ++ c :: r) = (a ++ ':' :: b) ++ c :: r := by simp
    rw [shape, nativeLine_append inside, ht]
    simp
  refine ⟨t.takeWhile (· != ':'), ?_⟩
  rw [line]
  refine firstTwo_append pa.1 (by simp) colonA ?_ ?_
  · simp only [List.mem_append, List.mem_cons, not_or]
    refine ⟨colonB, ?_, fun h => by simpa using List.mem_takeWhile_imp h⟩
    rcases stop with rfl | rfl <;> decide
  · intro d hd
    have := List.head?_dropWhile_not (· != ':') t
    rw [hd] at this
    simpa using this

/-- Where both readers find the same fields, the file is two plain fields. -/
theorem twoFields_of_found {content a b : List Char}
    (native : firstTwo (· == ':') (nativeLine content) = some (a, b))
    (java : JavaPair content a b) : TwoFields content := by
  obtain ⟨ha, hb, colonA, colonB, k, line⟩ := javaPair_iff.mp java
  have cut := content.takeWhile_append_dropWhile (p := fun c => !(c == '\n' || c == '\r'))
  have lineEnd : ∀ c ∈ a ++ ':' :: (b ++ List.replicate k ':'), c ≠ '\n' ∧ c ≠ '\r' := by
    intro c hc
    rw [← line] at hc
    simpa using List.mem_takeWhile_imp hc
  -- the native reader found the fields in a line that holds no NUL
  have nul : '\x00' ∉ a ∧ '\x00' ∉ b := by
    obtain ⟨r, r', first, second⟩ := firstTwo_eq_some.mp native
    obtain ⟨sep, rest, hl, -, -, -, -, rfl⟩ := token_eq_some.mp first
    obtain ⟨sep', rest', hl', -, -, -, -, -⟩ := token_eq_some.mp second
    have none : '\x00' ∉ nativeLine content := nativeLine_nul
    rw [hl] at none
    refine ⟨fun h => none (by simp [h]), fun h => none ?_⟩
    have : '\x00' ∈ rest.tail := by rw [hl']; simp [h]
    simp [List.mem_of_mem_tail this]
  have pa : PlainField a :=
    ⟨ha, fun c hc => ⟨ne_of_mem_of_not_mem hc colonA, (lineEnd c (by simp [hc])).1,
      (lineEnd c (by simp [hc])).2, ne_of_mem_of_not_mem hc nul.1⟩⟩
  have pb : PlainField b :=
    ⟨hb, fun c hc => ⟨ne_of_mem_of_not_mem hc colonB, (lineEnd c (by simp [hc])).1,
      (lineEnd c (by simp [hc])).2, ne_of_mem_of_not_mem hc nul.2⟩⟩
  generalize hrest : content.dropWhile (fun c => !(c == '\n' || c == '\r')) = rest at cut
  change javaLine content ++ rest = content at cut
  rw [line] at cut
  refine ⟨a, b, k, rest, pa, pb, by simp [← cut], ?_⟩
  cases rest with
  | nil => exact Or.inl rfl
  | cons c r =>
    have stop : c = '\n' ∨ c = '\r' := by
      have := List.head?_dropWhile_not (fun c => !(c == '\n' || c == '\r')) content
      rw [hrest] at this
      simpa [or_iff_not_imp_left] using this
    refine Or.inr ⟨?_, c, rfl, stop⟩
    by_contra none
    obtain rfl : k = 0 := by omega
    have found := nativeLine_lineEnd (a := a) (b := b) pa pb stop (r := r)
    rw [← cut, List.replicate_zero, List.append_nil, List.append_assoc, List.cons_append] at native
    obtain ⟨t, ht⟩ := found
    rw [native] at ht
    simpa using congrArg List.length (Prod.mk.inj (Option.some.inj ht)).2

/-- The files on which the readers agree. -/
theorem readers_agree_iff {debug : Bool} {content : List Char} :
    ReadersAgree debug (some (utf8Encode content)) ↔ TwoFields content ∨ NoFields content := by
  rw [readersAgree_iff_same]
  constructor
  · intro same
    cases found : firstTwo (· == ':') (nativeLine content) with
    | some t => exact Or.inl (twoFields_of_found found ((same t.1 t.2).mp found))
    | none =>
      refine Or.inr ⟨firstTwo_none_iff.mp found, ?_⟩
      rintro ⟨a, b, k, ha, hb, pa, pb, line⟩
      have := (same a b).mpr (javaPair_iff.mpr ⟨ha, hb, pa, pb, k, line⟩)
      rw [found] at this
      cases this
  · rintro (h | ⟨native, java⟩) a b
    · obtain ⟨c, d, hn, hj⟩ := h.found
      constructor
      · intro h
        rw [hn] at h
        cases h
        exact hj
      · rintro ⟨hf, -, -⟩
        rw [hj.1] at hf
        cases hf
        exact hn
    · rw [firstTwo_none_iff.mpr native]
      constructor
      · intro h
        cases h
      · intro h
        obtain ⟨ha, hb, pa, pb, k, line⟩ := javaPair_iff.mp h
        exact absurd ⟨a, b, k, ha, hb, pa, pb, line⟩ java

/-- With a newline at its end, the native reader takes it into the hash. -/
theorem readers_differ_on_newline :
    ¬ ∀ (debug : Bool) (content : List Char), ReadersAgree debug (some (utf8Encode content)) := by
  intro claim
  have same := readersAgree_iff_same.mp (claim false ['u', ':', 'h', '\n']) ['u'] ['h', '\n']
  have native : firstTwo (· == ':') (nativeLine ['u', ':', 'h', '\n']) =
    some (['u'], ['h', '\n']) := by decide
  have java : fields (· == ':') (javaLine ['u', ':', 'h', '\n']) = [['u'], ['h']] := by decide
  have := (same.mp native).1
  rw [java] at this
  simp at this

end Ikofi.PasswordFile
