import N2Kafka.Lib.CString

namespace N2Kafka.Util.JsonString

open Lib.CString

/-- The ones a byte starts with, as `__builtin_clz` counts them in its complement. -/
def leadingOnes (c : UInt8) : ℕ :=
  ((List.range 8).takeWhile fun i ↦ c.toNat.testBit (7 - i)).length

def multibyteUtf8UnicodeSize : Bytes → ℕ
  | [] => 0
  | c :: rest =>
    let ones := leadingOnes c
    if ones = 0 then 1
    else if ones < 2 ∨ 4 < ones then 0
    else if rest.length + 1 < ones then 0
    else if (rest.take (ones - 1)).all fun b ↦ b &&& 0xc0 = 0x80 then ones
    else 0

def printNotUtf8Code (c : UInt8) : Bytes := ascii "\\\\x" ++ ascii (toString c.toNat)

def printUtf8 (data : Bytes) : Bytes × ℕ :=
  match multibyteUtf8UnicodeSize data with
  | 0 => (printNotUtf8Code (data.headD 0), 1)
  | size => (data.take size, size)

def jsonEscapes : List (UInt8 × UInt8) := [(8, 98), (12, 102), (10, 110), (13, 114), (9, 116)]

/-- What is appended and the return code, if every append succeeds. `strchr` finds the terminator of
its string too, so a null byte gets as far as `print_json_escaped_character`, which answers with an
error for whatever it has no escape for. -/
def appendJsonLoop : ℕ → Bytes → Bytes × ℕ
  | 0, _ | _ + 1, [] => ([], 0)
  | fuel + 1, c :: rest =>
    match jsonEscapes.lookup c with
    | some letter =>
      let (text, rc) := appendJsonLoop fuel rest
      ([92, letter] ++ text, rc)
    | none =>
      if c = 0 then (printNotUtf8Code c, 1)
      else if c ∈ ascii "\"\\" then
        let (text, rc) := appendJsonLoop fuel rest
        ([92, c] ++ text, rc)
      else
        let (printed, consumed) := printUtf8 (c :: rest)
        let (text, rc) := appendJsonLoop fuel ((c :: rest).drop consumed)
        (printed ++ text, rc)

/-- Each turn takes at least one byte. -/
def stringAppendJsonString (data : Bytes) : Bytes × ℕ := appendJsonLoop data.length data

example : stringAppendJsonString (ascii "a\"b\n") = (ascii "a\\\"b\\n", 0) := by decide

end N2Kafka.Util.JsonString
