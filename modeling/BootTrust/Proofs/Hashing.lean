import BootTrust.ContentHash
import BootTrust.Disk.Access
import BootTrust.MemoryFiles
/-
Hashing block by block. However a file is delivered, and whatever the size of the blocks, the digest
is that of the whole content: a block together with what is left is the content
(`Stream.fill_content`), and cutting a message does not matter to a digest
(`Sha256.Context.finish_absorb`). What remains to be seen is when the loop ends. A block is empty
only at the end of the file, and a failure is met by the block that reaches it.

What a delivery has to do with a content is said apart from any reader (`Stream.Delivers`): the
content comes in pieces, with interruptions anywhere between them, and then the file is at its end
or cannot be read any further. The length of the content plays no part, so there is nothing special
about one that fills its last block.
-/

set_option autoImplicit false

namespace BootTrust

/-! ## Blocks of a stream -/

namespace Stream

/-- A failure of a block is the first failure of the stream. -/
theorem failure?_of_fill_error {room : Nat} {s : Stream} {cause : IoFailure}
    (h : s.fill room = .error cause) : s.failure? = some cause := by
  fun_induction fill room s with
  | case1 => cases h
  | case2 room rest ih => exact ih h
  | case3 => exact congrArg some (Except.error.inj h)
  | case4 => cases h
  | case5 room bytes rest hroom ih =>
    rcases hrest : fill (room - bytes.length) rest with cause' | ⟨more, left⟩
    · rw [hrest] at h ih
      exact ih h
    · rw [hrest] at h
      cases h

/-- A block does not pass a failure by. -/
theorem failure?_of_fill_ok {room : Nat} {s left : Stream} {block : Bytes}
    (h : s.fill room = .ok (block, left)) : left.failure? = s.failure? := by
  fun_induction fill room s generalizing block left with
  | case1 =>
    cases h
    rfl
  | case2 room rest ih => exact ih h
  | case3 => cases h
  | case4 room bytes rest hroom =>
    cases h
    rfl
  | case5 room bytes rest hroom ih =>
    rcases hrest : fill (room - bytes.length) rest with cause | ⟨more, left'⟩
    · rw [hrest] at h
      cases h
    · rw [hrest] at h
      cases h
      exact ih hrest

/-- Only at the end of the file there is nothing to fill a block with. -/
theorem eq_end_of_fill_nil {room : Nat} (hroom : 0 < room) {s left : Stream}
    (h : s.fill room = .ok ([], left)) : s.content = [] ∧ s.failure? = none := by
  fun_induction fill room s generalizing left with
  | case1 => exact ⟨rfl, rfl⟩
  | case2 room rest ih => exact ih hroom h
  | case3 => cases h
  | case4 room bytes rest hlong =>
    have hnil : bytes.take room = [] := (Prod.mk.inj (Except.ok.inj h)).1
    have hlength := congrArg List.length hnil
    rw [List.length_take, List.length_nil] at hlength
    omega
  | case5 room bytes rest hshort ih =>
    rcases hrest : fill (room - bytes.length) rest with cause | ⟨more, left'⟩
    · rw [hrest] at h
      cases h
    · rw [hrest] at h
      have hnil : bytes ++ more = [] := (Prod.mk.inj (Except.ok.inj h)).1
      obtain ⟨rfl, rfl⟩ := List.append_eq_nil_iff.mp hnil
      exact ih hroom hrest

/-- Reading to the end gives the content, unless a failure comes first. -/
theorem readToEnd_eq (s : Stream) : s.readToEnd = match s.failure? with
    | some cause => .error cause
    | none => .ok s.content := by
  induction s with
  | nil => rfl
  | cons delivery rest ih =>
    rcases delivery with bytes | _ | cause
    · rw [readToEnd, ih, failure?]
      rcases failure? rest with _ | cause
      · rfl
      · rfl
    · exact ih
    · rfl

/-- How a content can be delivered: in pieces, with any number of interruptions, up to the end of
the file or up to a failure. No piece is empty, since to read nothing is to be at the end of the
file. -/
inductive Delivers : Stream → Bytes → Option IoFailure → Prop where
  | finished : Delivers [] [] none
  | piece {bytes content : Bytes} {rest : Stream} {outcome : Option IoFailure} (hbytes : bytes ≠ [])
    (hrest : Delivers rest content outcome) :
    Delivers (.chunk bytes :: rest) (bytes ++ content) outcome
  | interrupted {content : Bytes} {rest : Stream} {outcome : Option IoFailure}
    (hrest : Delivers rest content outcome) : Delivers (.interrupted :: rest) content outcome
  | failed (cause : IoFailure) (lasting : cause ≠ .interrupted) (rest : Stream) :
    Delivers (.failed cause lasting :: rest) [] (some cause)

/-- What has been delivered is the content, and what came last is the failure, if one came. -/
theorem Delivers.eq {s : Stream} {content : Bytes} {outcome : Option IoFailure}
    (h : s.Delivers content outcome) : s.content = content ∧ s.failure? = outcome := by
  induction h with
  | finished => exact ⟨rfl, rfl⟩
  | piece _ _ ih => exact ⟨congrArg (_ ++ ·) ih.1, ih.2⟩
  | interrupted _ ih => exact ih
  | failed => exact ⟨rfl, rfl⟩

end Stream

/-! ## Digests under way -/

/-- That a context stands for a message: finishing it gives the digest of the message. -/
structure Sha256.Context.StandsFor (ctx : Context) (message : Bytes) : Prop where
  length : ctx.length = message.length
  absorbed : Sha256.absorb .start message = (ctx.chain, ctx.pending)

namespace Sha256.Context.StandsFor

variable {ctx : Context} {message : Bytes}

theorem empty : Context.empty.StandsFor [] where
  length := rfl
  absorbed := by
    rw [Sha256.absorb, if_pos (by decide)]
    rfl

theorem absorb (h : ctx.StandsFor message) (piece : Bytes) :
    (ctx.absorb piece).StandsFor (message ++ piece) := by
  obtain ⟨hlength, habsorbed⟩ := finish_absorb message piece ctx h.length h.absorbed
  exact ⟨hlength, habsorbed⟩

theorem finish (h : ctx.StandsFor message) : ctx.finish = digest message :=
  finish_eq_digest message ctx h.length h.absorbed

end Sha256.Context.StandsFor

/-- Reading a file in memory gives its content. -/
theorem MemoryFiles.readBytes_source (files : MemoryFiles) (p : Path) :
    files.source.readBytes p = match files.get? p with
      | some content => .ok content
      | none => .error (missing p) := by
  simp only [FileSource.readBytes, source]
  rcases files.get? p with _ | content
  · rfl
  · simp only [bind, Except.bind, Stream.readToEnd_eq, Stream.failure?_ofBytes,
      Stream.content_ofBytes]

namespace ContentHash

/-- For blocks of any positive size the outcome is the first failure of the stream, or the digest of
its content behind the message so far. -/
theorem digestBlocks_eq {size : Nat} (hsize : 0 < size) {ctx : Sha256.Context} {message : Bytes}
    (hctx : ctx.StandsFor message) (s : Stream) :
    digestBlocks size ctx s = match s.failure? with
      | some cause => .error cause
      | none => .ok (Sha256.digest (message ++ s.content)) := by
  fun_induction digestBlocks size ctx s generalizing message with
  | case1 ctx s cause hfill => rw [Stream.failure?_of_fill_error hfill]
  | case2 ctx s left hfill =>
    obtain ⟨hcontent, hfailure⟩ := Stream.eq_end_of_fill_nil hsize hfill
    rw [hcontent, hfailure, List.append_nil, hctx.finish]
  | case3 ctx s block left hfill hblock _ ih =>
    rw [ih (hctx.absorb block), Stream.failure?_of_fill_ok hfill, List.append_assoc,
      Stream.fill_content hfill]

/-- The hash of a stream is the hash of its content, if it can be read. -/
theorem ofStream_eq (s : Stream) :
    ofStream s = match s.failure? with
      | some cause => .error cause
      | none => .ok (ofBytes s.content) := by
  have hsize : 0 < blockSize := by decide
  rw [ofStream, digestBlocks_eq hsize .empty s]
  rcases s.failure? with _ | cause
  · rfl
  · rfl

/-- The hash of a file is the hash of the bytes that reading it gives, wherever the file comes
from. -/
theorem ofFile_eq (files : FileSource) (p : Path) :
    ofFile files p = match files.readBytes p with
      | .error cause => .error ⟨p, cause⟩
      | .ok content => .ok (ofBytes content) := by
  rw [ofFile, FileSource.readBytes]
  rcases files.openFile p with cause | s
  · rfl
  · simp only [ofStream_eq, bind, Except.bind, s.readToEnd_eq]
    rcases s.failure? with _ | cause
    · rfl
    · rfl

/-- The hash of a file that can be opened is the hash of what its stream delivers. -/
theorem ofFile_of_openFile {files : FileSource} {p : Path} {s : Stream}
    (h : files.openFile p = .ok s) :
    ofFile files p = match s.failure? with
      | some cause => .error ⟨p, cause⟩
      | none => .ok (ofBytes s.content) := by
  rw [ofFile, h]
  simp only [ofStream_eq]
  rcases s.failure? with _ | cause
  · rfl
  · rfl

/-- The hash of a file on a disk is the hash of its content. -/
theorem ofFile_of_read {disk : Disk} {p : Path} {content : Bytes} (h : disk.read p = .ok content) :
    ofFile disk.source p = .ok (ofBytes content) := by
  have hopen : disk.source.openFile p = .ok (.ofBytes content) := by
    rw [Disk.source]
    simp only [h]
  rw [ofFile_of_openFile hopen, Stream.failure?_ofBytes, Stream.content_ofBytes]

/-- The hash of a file in memory is the hash of its content, and a missing one has none. -/
theorem ofFile_source (files : MemoryFiles) (p : Path) :
    ofFile files.source p = match files.get? p with
      | some content => .ok (ofBytes content)
      | none => .error ⟨p, MemoryFiles.missing p⟩ := by
  rw [ofFile_eq, MemoryFiles.readBytes_source]
  rcases files.get? p with _ | content
  · rfl
  · rfl

/-- A hash is never the empty text. -/
theorem ofBytes_ne_empty (content : Bytes) : ofBytes content ≠ "" := by
  have hdigest : ∀ bytes, Sha256.digest bytes ≠ [] := fun bytes h => by cases h
  have hencode : ∀ bytes, bytes ≠ [] → Base64.encode bytes ≠ "" := by
    intro bytes hne h
    rw [Base64.encode, ← String.ofList_nil, String.ofList_inj] at h
    rcases bytes with _ | ⟨a, _ | ⟨b, _ | ⟨c, rest⟩⟩⟩
    · exact hne rfl
    · cases h
    · cases h
    · cases h
  exact hencode _ (hdigest content)

/-- A content that is delivered to its end has the digest of the whole, for blocks of any positive
size, and a file that delivers it has the hash of the whole. So has every file in memory and on a
disk. A failure that comes before the end, wherever it comes, is what there is in place of a digest,
and the file that it was is named. -/
theorem hash_of_delivered :
    (∀ (s : Stream) (content : Bytes), s.Delivers content none →
      (∀ size, 0 < size → digestBlocks size .empty s = .ok (Sha256.digest content))
        ∧ ∀ (files : FileSource) (p : Path), files.openFile p = .ok s →
          ofFile files p = .ok (ofBytes content))
    ∧ (∀ (s : Stream) (content : Bytes) (cause : IoFailure), s.Delivers content (some cause) →
      (∀ size, 0 < size → digestBlocks size .empty s = .error cause)
        ∧ ∀ (files : FileSource) (p : Path), files.openFile p = .ok s →
          ofFile files p = .error ⟨p, cause⟩)
    ∧ (∀ (files : MemoryFiles) (p : Path) (content : Bytes), files.get? p = some content →
      ofFile files.source p = .ok (ofBytes content))
    ∧ ∀ (disk : Disk) (p : Path) (content : Bytes), disk.read p = .ok content →
      ofFile disk.source p = .ok (ofBytes content) := by
  refine ⟨fun s content h => ?_, fun s content cause h => ?_, fun files p content h => ?_,
    fun disk p content h => ofFile_of_read h⟩
  · obtain ⟨hcontent, hend⟩ := h.eq
    refine ⟨fun size hsize => ?_, fun files p hopen => ?_⟩
    · rw [digestBlocks_eq hsize .empty s, hend, hcontent, List.nil_append]
    · rw [ofFile_of_openFile hopen, hend, hcontent]
  · obtain ⟨-, hfailure⟩ := h.eq
    refine ⟨fun size hsize => ?_, fun files p hopen => ?_⟩
    · rw [digestBlocks_eq hsize .empty s, hfailure]
    · rw [ofFile_of_openFile hopen, hfailure]
  · rw [ofFile_source, h]

/-- Three bytes in blocks of two, one of them after an interruption, and a file that fails in its
second block. -/
theorem hash_of_delivered_trickle :
    digestBlocks 2 .empty
        [.interrupted, .chunk [0x61], .interrupted, .chunk [0x62, 0x63], .interrupted]
      = .ok (Sha256.digest [0x61, 0x62, 0x63])
    ∧ ofFile
        ⟨fun _ => .ok [.chunk [0x61, 0x62], .chunk [0x63], .failed (.os 5), .chunk [0x64]]⟩
        ⟨"boot.wim"⟩
      = .error ⟨⟨"boot.wim"⟩, .os 5⟩ := by
  have hwhole : Stream.Delivers
      [.interrupted, .chunk [0x61], .interrupted, .chunk [0x62, 0x63], .interrupted]
      [0x61, 0x62, 0x63] none :=
    .interrupted (.piece (by decide) (.interrupted (.piece (by decide) (.interrupted .finished))))
  have hfailed : Stream.Delivers
      [.chunk [0x61, 0x62], .chunk [0x63], .failed (.os 5), .chunk [0x64]]
      [0x61, 0x62, 0x63] (some (.os 5)) :=
    .piece (by decide) (.piece (by decide) (.failed (.os 5) (by decide) _))
  exact ⟨(hash_of_delivered.1 _ _ hwhole).1 2 (by decide),
    (hash_of_delivered.2.1 _ _ _ hfailed).2 _ ⟨"boot.wim"⟩ rfl⟩

end ContentHash

end BootTrust
