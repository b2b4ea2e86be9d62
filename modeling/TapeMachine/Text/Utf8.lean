/-!
# UTF-8

Characters as bytes, and bytes as characters. Bytes that encode no character are
kept apart as stray ones, so that nothing is lost.
-/

namespace TapeMachine.Text

/-- A piece of a byte sequence: a character, or a byte that belongs to none. -/
inductive Scalar where
  | char (c : Char)
  | stray (b : UInt8)
  deriving DecidableEq, Repr

/-- The bytes of characters. -/
def utf8Bytes (cs : List Char) : List UInt8 := cs.flatMap String.utf8EncodeChar

/-- How many bytes follow a first byte beyond the first 128, and the least and
greatest value of the one next to it. -/
def followers? (b : UInt8) : Option (Nat × UInt8 × UInt8) :=
  if 0xC2 ≤ b ∧ b ≤ 0xDF then some (1, 0x80, 0xBF)
  else if b = 0xE0 then some (2, 0xA0, 0xBF)
  else if b = 0xED then some (2, 0x80, 0x9F)
  else if 0xE1 ≤ b ∧ b ≤ 0xEF then some (2, 0x80, 0xBF)
  else if b = 0xF0 then some (3, 0x90, 0xBF)
  else if 0xF1 ≤ b ∧ b ≤ 0xF3 then some (3, 0x80, 0xBF)
  else if b = 0xF4 then some (3, 0x80, 0x8F)
  else none

/-- The character that starts with the byte `b`, and how many of the bytes `bs`
behind it belong to it. -/
def leading? (b : UInt8) (bs : List UInt8) : Option (Char × Nat) :=
  if b < 0x80 then some (Char.ofNat b.toNat, 0)
  else
    match followers? b with
    | none => none
    | some (count, low, high) =>
      let more := bs.take count
      if more.length = count ∧ more.head?.any (fun c => low ≤ c && c ≤ high) ∧
          more.all (fun c => 0x80 ≤ c && c ≤ 0xBF) then
        let lead := b.toNat % (1 <<< (6 - count))
        some (Char.ofNat (more.foldl (fun n c => n * 64 + c.toNat % 64) lead), count)
      else none

/-- Takes bytes apart into `done`, in reverse, after `skip` bytes. -/
def scalarsFrom : (skip : Nat) → (done : List Scalar) → List UInt8 → List Scalar
  | _, done, [] => done.reverse
  | skip + 1, done, _ :: bs => scalarsFrom skip done bs
  | 0, done, b :: bs =>
    match leading? b bs with
    | some (c, count) => scalarsFrom count (.char c :: done) bs
    | none => scalarsFrom 0 (.stray b :: done) bs

/-- The characters that bytes encode, and the stray bytes among them. -/
def scalars (bytes : List UInt8) : List Scalar := scalarsFrom 0 [] bytes

end TapeMachine.Text
