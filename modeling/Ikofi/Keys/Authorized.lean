import Ikofi.Keys.Decode
import Ikofi.Wire

/-!
# Looking a public key up

`checkpubkey` on the content of `authorized_keys`. The options of a key are cut out here;
what `svr_parse_pubkey_options` makes of them is a parameter, and so is what they are.
-/

namespace Ikofi.Keys

open Wire

def minAuthkeysLine : Nat := 10

def maxAuthkeysLine : Nat := 4200

def isBlank (c : UInt8) : Bool := c == 32 || c == 9

def isAlnum (c : UInt8) : Bool :=
  (48 ≤ c && c ≤ 57) || (65 ≤ c && c ≤ 90) || (97 ≤ c && c ≤ 122)

/-- The lines that `buf_getline` gives, one call after the other. Where the buffer is full
the line is emptied, and the next call goes on behind it. -/
def getlines (line : Bytes) : Bytes → List Bytes
  | [] => if line = [] then [] else [line]
  | c :: rest =>
    if c = 10 ∨ c = 13 then line :: getlines [] rest
    else if line.length + 1 = maxAuthkeysLine then [] :: getlines [] rest
    else getlines (line ++ [c]) rest

/-- How many bytes the options take, up to a blank that is not quoted. -/
def optionsLen (quoted escape : Bool) : Bytes → Nat
  | [] => 0
  | c :: rest =>
    if !quoted && isBlank c then 0
    else
      let escape := !escape && c == 92
      1 + optionsLen (if !escape && c == 34 then !quoted else quoted) escape rest

/-- What follows the algorithm's name on a line, and the options before it. -/
structure Entry where
  options : Option Bytes
  rest : Bytes
  deriving DecidableEq

/-- Whether a line goes on with the algorithm and has room for some base64. -/
def afterAlgo (algo line : Bytes) : Option Bytes :=
  if line.length < algo.length + 3 then none
  else if line.take algo.length = algo then some (line.drop algo.length)
  else none

/-- The first part of `checkpubkey_line`: the end of a line of blanks is read beyond. -/
def findEntry (algo line : Bytes) : Except Halt (Option Entry) :=
  if line.length < algo.length + 3 then .ok none
  else if line.take algo.length = algo then .ok (some ⟨none, line.drop algo.length⟩)
  else
    let start := line.dropWhile isBlank
    match start with
    | 35 :: _ => .ok none
    | _ => do
      let _ ← bufGetPtr start 1
      let len := optionsLen false false start
      return (afterAlgo algo (start.drop (len + 1))).map fun rest => ⟨some (start.take len), rest⟩

/-- The comment, where it may become a variable of the environment. -/
def pubkeyInfo (text : Bytes) : Option Bytes :=
  let info := text.takeWhile (· != 32)
  if info.all (fun c => isAlnum c || (lit ".,_-+@").contains c) && !info.isEmpty then some info
  else none

def cmpBase64Key (keyblob algo text : Bytes) : Except Halt Bool :=
  if text.isEmpty then .ok false
  else match Base64.decode text with
    | none => .ok false
    | some decoded =>
      if decoded = keyblob then do
        let (len, rest) ← bufGetInt decoded
        let name ← bufGetPtr rest len
        return name == algo
      else .ok false

/-- The options of a key that was found. -/
structure Options (ω : Type) where
  parsed : ω
  infoEnv : Option Bytes
  deriving DecidableEq

section
variable {ω : Type}

def checkpubkeyLine (parse : Option Bytes → Option ω) (algo keyblob line : Bytes) :
    Except Halt (Option (Options ω)) :=
  if line.length < minAuthkeysLine || maxAuthkeysLine < line.length || line.contains 0 then .ok none
  else do
    match ← findEntry algo line with
    | none => return none
    | some ⟨options, rest⟩ =>
      match rest with
      | 32 :: text =>
        let data := text.takeWhile (· != 32)
        let same ← cmpBase64Key keyblob algo data
        return if same then
          (parse options).map fun parsed => ⟨parsed, pubkeyInfo (text.drop (data.length + 1))⟩
        else none
      | _ => return none

/-- The lines, until one has the key. -/
def checkLines (parse : Option Bytes → Option ω) (algo keyblob : Bytes) :
    List Bytes → Except Halt (Option (Options ω))
  | [] => .ok none
  | line :: lines => do
    match ← checkpubkeyLine parse algo keyblob line with
    | some found => return some found
    | none => checkLines parse algo keyblob lines

/-- `checkpubkey`; `none` is a file that cannot be opened. -/
def checkpubkey (parse : Option Bytes → Option ω) (algo keyblob : Bytes) :
    Option Bytes → Except Halt (Option (Options ω))
  | none => .ok none
  | some file => checkLines parse algo keyblob (getlines [] file)

end

end Ikofi.Keys
