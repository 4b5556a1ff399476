import BootTrust.Text.Utf8
import BootTrust.IoFailure
/-
A file as its reader experiences it: not one string but a succession of deliveries. A read may
come back short, may be interrupted and has to be repeated, or may fail for good. `fill` hides the
first two: it gathers a block of the wanted size whatever the deliveries, and only the end of the
file makes a block shorter.

The law of `fill` is `fill_content`: the block and what is left make up the content, so no byte is
lost or read twice at a border between deliveries or blocks.
-/

set_option autoImplicit false

namespace BootTrust

/-- What one attempt to read brings. -/
inductive Delivery where
  /-- Some bytes; as many of them as the reader has room for are taken, the others come next
  time. -/
  | chunk (bytes : Bytes)
  /-- Nothing, and the attempt has to be repeated. -/
  | interrupted
  /-- The file cannot be read any further. -/
  | failed (cause : IoFailure) (lasting : cause ≠ .interrupted := by decide)
  deriving Repr

/-- The deliveries still to come; after the last one the file is at its end. -/
abbrev Stream := List Delivery

namespace Stream

/-- A file that is delivered whole at the first read. -/
def ofBytes (bytes : Bytes) : Stream := [.chunk bytes]

/-- The bytes up to the end of the file or the first failure. -/
def content : Stream → Bytes
  | [] => []
  | .chunk bytes :: rest => bytes ++ content rest
  | .interrupted :: rest => content rest
  | .failed _ _ :: _ => []

/-- The first failure, if there is one. -/
def failure? : Stream → Option IoFailure
  | [] => none
  | .chunk _ :: rest => failure? rest
  | .interrupted :: rest => failure? rest
  | .failed cause _ :: _ => some cause

/-- Reads until `room` bytes are there or the file is at its end: the bytes, and the deliveries
left. -/
def fill (room : Nat) : Stream → Except IoFailure (Bytes × Stream)
  | [] => .ok ([], [])
  | .interrupted :: rest => fill room rest
  | .failed cause _ :: _ => .error cause
  | .chunk bytes :: rest =>
    if room ≤ bytes.length then .ok (bytes.take room, .chunk (bytes.drop room) :: rest)
    else do
      let (more, left) ← fill (room - bytes.length) rest
      return (bytes ++ more, left)

/-- Reads to the end of the file. -/
def readToEnd : Stream → Except IoFailure Bytes
  | [] => .ok []
  | .interrupted :: rest => readToEnd rest
  | .failed cause _ :: _ => .error cause
  | .chunk bytes :: rest => (bytes ++ ·) <$> readToEnd rest

@[simp] theorem content_ofBytes (bytes : Bytes) : (ofBytes bytes).content = bytes := by
  simp [ofBytes, content]

@[simp] theorem failure?_ofBytes (bytes : Bytes) : (ofBytes bytes).failure? = none := rfl

/-- A block and the deliveries left make up the content. -/
theorem fill_content {room : Nat} {s left : Stream} {block : Bytes}
    (h : s.fill room = .ok (block, left)) : block ++ left.content = s.content := by
  fun_induction fill room s generalizing block left with
  | case1 => cases h; rfl
  | case2 room rest ih => simpa [content] using ih h
  | case3 => cases h
  | case4 room bytes rest hroom =>
    cases h
    simp [content, ← List.append_assoc]
  | case5 room bytes rest hroom ih =>
    cases hrec : fill (room - bytes.length) rest with
    | error e => rw [hrec] at h; cases h
    | ok r =>
      rw [hrec] at h
      cases h
      simp [content, ih hrec]

end Stream

end BootTrust
