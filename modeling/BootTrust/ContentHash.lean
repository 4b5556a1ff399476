import BootTrust.Digest.Base64
import BootTrust.Digest.Sha256
import BootTrust.FileSource
/-
The content hash of a file: SHA-256 over its bytes, in Base64. The signing service sends this very
text back when it agrees, so it serves as the name of the content.

A file is hashed block by block while it is read. `ofBytes` is the hash of bytes at hand; that both
agree for every way of delivering a file is a law of `ofStream`.
-/

set_option autoImplicit false

namespace BootTrust

/-- A file could not be hashed because it could not be read. -/
structure HashError where
  path : Path
  cause : IoFailure

namespace HashError

def message (e : HashError) : String :=
  "failed to read " ++ e.path.text ++ ": " ++ e.cause.message

/-- The failures behind this one, in words. -/
def sources (e : HashError) : List String := [e.cause.message]

end HashError

namespace ContentHash

/-- How many bytes are read before they are hashed: 32 MiB. -/
def blockSize : Nat := 32 * 1024 * 1024

def ofBytes (bytes : Bytes) : String :=
  Base64.encode (Sha256.digest bytes)

/-- Reads a stream in blocks of `size` bytes into a digest, until a block comes back empty. -/
def digestBlocks (size : Nat) (ctx : Sha256.Context) (s : Stream) : Except IoFailure Bytes :=
  match h : s.fill size with
  | .error cause => .error cause
  | .ok (block, left) =>
    if hb : block = [] then .ok ctx.finish
    else
      have : left.content.length < s.content.length := by
        have hc := congrArg List.length (Stream.fill_content h)
        have hpos := List.length_pos_iff.mpr hb
        simp only [List.length_append] at hc
        omega
      digestBlocks size (ctx.absorb block) left
termination_by s.content.length

def ofStream (s : Stream) : Except IoFailure String :=
  Base64.encode <$> digestBlocks blockSize .empty s

/-- The content hash of the file at a path. -/
def ofFile (files : FileSource) (p : Path) : Except HashError String :=
  match files.openFile p with
  | .error cause => .error ⟨p, cause⟩
  | .ok s =>
    match ofStream s with
    | .error cause => .error ⟨p, cause⟩
    | .ok hash => .ok hash

end ContentHash

end BootTrust
