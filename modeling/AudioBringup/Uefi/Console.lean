import AudioBringup.Uefi.Services
/-!
# Uefi.Console — text through the firmware's console

The console takes strings of 16-bit units that end in a zero.  A text is cut into runs of `chunkLength` units, each sent
by a call of its own, and a line feed is sent behind a carriage return.  The first call that fails ends the text.
-/
namespace AudioBringup
namespace Uefi
namespace Console

/-- The units of one character, a line feed as two of them. -/
def unitsOf (c : Char) : List (BitVec 16) :=
  if c = '\n' then [0x000d, 0x000a]
  else if c.toNat < 0x10000 then [BitVec.ofNat 16 c.toNat]
  else
    let rest := c.toNat - 0x10000
    [BitVec.ofNat 16 (0xd800 + rest / 0x400), BitVec.ofNat 16 (0xdc00 + rest % 0x400)]

/-- The units of a text. -/
def units (text : String) : List (BitVec 16) := text.toList.flatMap unitsOf

/-- The most units of one call, its final zero not counted. -/
def chunkLength : Nat := 126

/-- Runs of `chunkLength` units, and what is left over as a last one; `held` is the start of the first run. -/
def chunksFrom (held : List (BitVec 16)) : List (BitVec 16) → List (List (BitVec 16))
  | [] => if held.isEmpty then [] else [held.reverse]
  | u :: rest =>
    if chunkLength ≤ held.length then held.reverse :: chunksFrom [u] rest
    else chunksFrom (u :: held) rest

/-- The runs a list of units is sent in. -/
def chunks (l : List (BitVec 16)) : List (List (BitVec 16)) := chunksFrom [] l

/-- Sends runs until one fails; whether all were sent. -/
def send : List (List (BitVec 16)) → Firmware Bool
  | [] => return true
  | chunk :: rest => do
    let status : Status ← Firmware.ask (.outputString (chunk ++ [0]))
    if Status.isError status then return false else send rest

/-- Writes a text; whether all of it was sent. -/
def write (text : String) : Firmware Bool := send (chunks (units text))

/-- Writes texts in their order until one fails; whether all were sent. -/
def writeAll : List String → Firmware Bool
  | [] => return true
  | text :: rest => do
    if ← write text then writeAll rest else return false

/-- What is shown from the start. -/
def initialLimit : Option Level := some .info

/-- Prints a notice as a line, if it is shown.  A line that cannot be printed is left at that. -/
def print (limit : Option Level) (n : Notice) : Firmware Unit := do
  if n.shown limit then
    let _ ← writeAll n.line

/-- The text of units: a high surrogate and the low one behind it are one character, any other surrogate is none. -/
def textOf : List (BitVec 16) → List Char
  | [] => []
  | high :: low :: rest =>
    if 0xd800 ≤ high.toNat ∧ high.toNat < 0xdc00 ∧ 0xdc00 ≤ low.toNat ∧ low.toNat < 0xe000 then
      Char.ofNat (0x10000 + (high.toNat - 0xd800) * 0x400 + (low.toNat - 0xdc00)) :: textOf rest
    else charOf high :: textOf (low :: rest)
  | [u] => [charOf u]
where
  /-- The character of one unit. -/
  charOf (u : BitVec 16) : Char :=
    if 0xd800 ≤ u.toNat ∧ u.toNat < 0xe000 then Char.ofNat 0xfffd else Char.ofNat u.toNat

/-- The lines of what was shown: they end in a carriage return and a line feed, but for a last one left open. -/
def linesOf (text : List Char) : List String :=
  let lines := (String.ofList text).splitOn "\x0d\x0a"
  if lines.getLast? = some "" then lines.dropLast else lines

/-- The lines that notices print as, up to a limit; the notices come newest first. -/
def transcript (limit : Option Level) (newestFirst : List Notice) : List String :=
  (newestFirst.reverse.filter (·.shown limit)).flatMap fun n => ((String.join n.line).splitOn "\n").dropLast

/-- Answers notices by printing them, and passes everything else on. -/
def answer (limit : Option Level) : (c : Call) → Unit → Firmware (c.Answer × Unit)
  | .note n, s => do
    print limit n
    return ((), s)
  | c, s => do return (← Firmware.ask c, s)

/-- A program with its notices printed. -/
def printing {α : Type} (limit : Option Level) (p : Firmware α) : Firmware α := do
  return (← p.expand (answer limit) ()).1

end Console
end Uefi
end AudioBringup
