/-
TraceSim/Report/ParseLog.lean

The reader of reports (`cal_spec.py`): `parse_log` on the content of a file.

The regular expressions are readers tried at every place of the text.  None of them
can match in two ways from one place, so the longest match of each part is the match.
`\d` is read for the digits of ASCII, `float` gives the exact value of the number.
-/
import Mathlib.Data.List.Infix
import Mathlib.Data.Rat.Defs
import TraceSim.Lib.Patterns
import TraceSim.Report.Print

namespace TraceSim

/-! ### Regular expressions -/

open Reader

/-- The characters `\s` stands for. -/
def isSpace (c : Char) : Bool :=
  decide (9 ≤ c.toNat ∧ c.toNat ≤ 13) || decide (28 ≤ c.toNat ∧ c.toNat ≤ 32) ||
    decide (0x2000 ≤ c.toNat ∧ c.toNat ≤ 0x200a) ||
    [0x85, 0xa0, 0x1680, 0x2028, 0x2029, 0x202f, 0x205f, 0x3000].contains c.toNat

/-- The value of a sequence of digits. -/
def digitsValue (digits : Text) : ℕ := Nat.ofDigitChars 10 digits 0

/-- The pattern `[0-9]+(?:\.[0-9]+)?`, with the value `float` gives its match. -/
def number : Reader Char ℚ := do
  let whole ← many1 Char.isDigit
  let digits ← (do lit (str "."); many1 Char.isDigit) <|> pure []
  pure (digitsValue whole + digitsValue digits / 10 ^ digits.length)

/-- The pattern `REGEX_ANSI`. -/
def regexAnsi : Reader Char Unit := do
  lit (str "\x1b[")
  let _ ← many fun c => c.isDigit || c == ';'
  lit (str "m")

/-- The pattern `REGEX_IPC`. -/
def regexIpc : Reader Char ℚ := do
  lit (str "Overall IPC:")
  let _ ← many1 isSpace
  number

/-- The groups of `REGEX_CACHE_LINE`. -/
structure CacheLine where
  name : Text
  acc : ℚ
  hitPct : ℚ

/-- A word of a pattern that the match keeps. -/
def group (w : Text) : Reader Char Text := do
  lit w
  pure w

/-- The pattern `REGEX_CACHE_LINE`: with `re.MULTILINE`, `^` holds at the start of
each line. -/
def regexCacheLine (prev : Option Char) : Reader Char CacheLine := do
  check (prev = none ∨ prev = some '\n')
  let name ← group (str "I-Cache") <|> group (str "D-Cache") <|> group (str "LLC(shared)")
  lit (str ":")
  let _ ← many1 isSpace
  let acc ← many1 Char.isDigit
  let _ ← many1 isSpace
  lit (str "accesses,")
  let _ ← many1 isSpace
  lit (str "Hit Rate:")
  let _ ← many1 isSpace
  let hitPct ← number
  lit (str "%")
  pure ⟨name, digitsValue acc, hitPct⟩

/-! ### parse_log -/

def stripAnsi (s : Text) : Text := remove (fun _ => regexAnsi) s

structure CacheReport where
  l1iAccess : ℚ := 0
  l1iHit : ℚ := 0
  l1dAccess : ℚ := 0
  l1dHit : ℚ := 0
  llcAccess : ℚ := 0
  llcHit : ℚ := 0
  deriving DecidableEq

structure LogReport where
  ipc : ℚ
  cache : CacheReport
  deriving DecidableEq

/-- The body of the loop over the cache lines. -/
def CacheReport.record (cache : CacheReport) (line : CacheLine) : CacheReport :=
  let hit := line.acc * (line.hitPct / 100)
  if line.name = str "I-Cache" then { cache with l1iAccess := line.acc, l1iHit := hit }
  else if line.name = str "D-Cache" then { cache with l1dAccess := line.acc, l1dHit := hit }
  else if line.name = str "LLC(shared)" then
    { cache with llcAccess := line.acc, llcHit := hit }
  else cache

def phaseHeader : Text := str "--- Phase Simulation Statistics ---"

/-- The function `parse_log` on the content of a file that could be read. -/
def parseLog (content : Text) : Except String LogReport :=
  let content := stripAnsi content
  if ¬ phaseHeader <:+: content then .error "missing phase statistics section"
  else
    -- the last phase counts
    match (findAll (fun _ => regexIpc) content).getLast? with
    | none => .error "missing Overall IPC"
    | some ipc =>
        .ok
          { ipc := ipc
            cache := (findAll regexCacheLine content).foldl CacheReport.record {} }

end TraceSim
