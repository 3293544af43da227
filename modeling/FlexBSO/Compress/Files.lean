import FlexBSO.Compress.Core

/- The files of compression_local_core.c: its two readers and its writer. A file
   system is what each path holds; the results of `open`, `fstat`, `mmap`, `fread` and
   `write`, and what `malloc` finds in the heap, are arguments. -/
namespace FlexBSO.Compress

/-- What each path holds; `none` where there is no file. -/
abbrev Files := String → Option (List UInt8)

/-- The calls of a reader: whether `open`, `fstat` and `mmap` succeed. -/
structure ReadCalls where
  openFd : Bool := true
  fstat : Bool := true
  mmap : Bool := true

/-- `buf_size` of `read_local_file_naive`, the most one `fread` is asked for -/
def readBufSize : Nat := 1024 * 1024

/-- What both readers do before they read: the content, or the error they return. -/
def openLocalFile (calls : ReadCalls) (files : Files) (path : String) : Except DocaError (List UInt8) :=
  match calls.openFd, files path with
  | false, _ => .error .ioFailed
  | true, none => .error .ioFailed
  | true, some content =>
    if calls.fstat = false then .error .ioFailed
    else if content.length = 0 ∨ maxFileSize < content.length then .error .invalidValue
    else .ok content

/-- `read_local_file_mmap`: `file_data` and `file_len` -/
def readLocalFileMmap (calls : ReadCalls) (files : Files) (path : String) : Except DocaError (List UInt8 × Nat) := do
  let content ← openLocalFile calls files path
  if calls.mmap = false then .error .noMemory else .ok (content, content.length)

/-- The loop of `read_local_file_naive`, where `fread` returns the counts `reads` and then 0: each
    chunk is copied to the start of `file_data`. -/
def readLoop (content : List UInt8) : (reads : List Nat) → (offset : Nat) → (fileData : List UInt8) → List UInt8 × Nat
  | [], offset, fileData => (fileData, offset)
  | bytesRead :: reads, offset, fileData =>
    readLoop content reads (offset + bytesRead) ((content.drop offset).take bytesRead ++ fileData.drop bytesRead)

/-- `read_local_file_naive`; `heap` is what `malloc` left in `file_data`. `none` where the assertion
    on the offset fails. -/
def readLocalFileNaive (calls : ReadCalls) (reads : List Nat) (heap : Nat → UInt8) (files : Files) (path : String) :
    Option (Except DocaError (List UInt8 × Nat)) :=
  match openLocalFile calls files path with
  | .error e => some (.error e)
  | .ok content =>
    let (fileData, offset) := readLoop content reads 0 ((List.range content.length).map heap)
    if offset = content.length then some (.ok (fileData, content.length)) else none

/-- The counts `fread` may return for a file of `size` bytes, before it returns 0 at its end. -/
def ReadsOf (size : Nat) (reads : List Nat) : Prop := (∀ k ∈ reads, 0 < k ∧ k ≤ readBufSize) ∧ reads.sum = size

instance (size : Nat) (reads : List Nat) : Decidable (ReadsOf size reads) := by
  unfold ReadsOf
  exact inferInstance

/-- A call of `write_local_file`: whether `open` succeeds, and how much `write` writes. -/
structure WriteCall where
  path : String
  data : List UInt8
  openFd : Bool := true
  written : Nat := data.length

/-- `write_local_file`: the file is created or kept, and written from its start. -/
def writeLocalFile (call : WriteCall) (files : Files) : DocaError × Files :=
  if call.openFd = false then (.ioFailed, files)
  else
    let old := (files call.path).getD []
    let files' := Function.update files call.path (some (call.data.take call.written ++ old.drop call.written))
    if call.written ≠ call.data.length then (.ioFailed, files') else (.success, files')

/-- Calls one after the other, all of which succeed. -/
def writeFiles : List WriteCall → Files → Option Files
  | [], files => some files
  | call :: calls, files =>
    match writeLocalFile call files with
    | (.success, files') => writeFiles calls files'
    | _ => none

/-! ## The two readers -/

section readers
variable {content : List UInt8} {reads : List Nat} {files : Files} {path : String}

theorem openLocalFile_ok (hfile : files path = some content) (hpos : 1 ≤ content.length) (hle : content.length ≤ maxFileSize) :
    openLocalFile {} files path = .ok content := by
  unfold openLocalFile
  rw [hfile]
  dsimp only
  rw [if_neg (by decide), if_neg (by omega)]

theorem readLocalFileMmap_ok (hfile : files path = some content) (hpos : 1 ≤ content.length)
    (hle : content.length ≤ maxFileSize) : readLocalFileMmap {} files path = .ok (content, content.length) := by
  unfold readLocalFileMmap
  rw [openLocalFile_ok hfile hpos hle]
  rfl

/-- The loop counts all it reads. -/
theorem readLoop_offset (reads : List Nat) : ∀ (offset : Nat) (fileData : List UInt8),
    (readLoop content reads offset fileData).2 = offset + reads.sum := by
  induction reads with
  | nil =>
    intro offset fileData
    rfl
  | cons k reads ih =>
    intro offset fileData
    rw [readLoop, ih, List.sum_cons]
    omega

/-- No chunk reaches past the longest one. -/
theorem readLoop_untouched {i : Nat} (reads : List Nat) : ∀ (offset : Nat) (fileData : List UInt8),
    (∀ k ∈ reads, k ≤ i) → offset + reads.sum ≤ content.length →
    (readLoop content reads offset fileData).1[i]? = fileData[i]? := by
  induction reads with
  | nil =>
    intro offset fileData _ _
    rfl
  | cons k reads ih =>
    intro offset fileData hk hsum
    rw [List.sum_cons] at hsum
    have hki : k ≤ i := hk k (by simp)
    have hlen : ((content.drop offset).take k).length = k := by
      rw [List.length_take, List.length_drop]
      omega
    rw [readLoop, ih _ _ (fun x hx => hk x (by simp [hx])) (by omega), List.getElem?_append_right (by omega), hlen,
      List.getElem?_drop]
    congr 1
    omega

theorem readLocalFileNaive_ok (hfile : files path = some content) (hpos : 1 ≤ content.length)
    (hle : content.length ≤ maxFileSize) (hreads : ReadsOf content.length reads) (heap : Nat → UInt8) :
    readLocalFileNaive {} reads heap files path =
      some (.ok ((readLoop content reads 0 ((List.range content.length).map heap)).1, content.length)) := by
  unfold readLocalFileNaive
  rw [openLocalFile_ok hfile hpos hle]
  dsimp only
  rw [if_pos]
  rw [readLoop_offset, hreads.2, Nat.zero_add]

/-- One `fread` returns the file. -/
theorem readLoop_single (heap : List UInt8) (hheap : heap.length = content.length) :
    (readLoop content [content.length] 0 heap).1 = content := by
  rw [readLoop, readLoop, List.drop_zero, List.take_length, List.drop_eq_nil_of_le (Nat.le_of_eq hheap), List.append_nil]

theorem byte_ne_succ (x : UInt8) : x ≠ x + 1 := by
  intro h
  have hnat := congrArg UInt8.toNat h
  rw [UInt8.toNat_add, show (1 : UInt8).toNat = 1 from rfl] at hnat
  have := x.toNat_lt
  omega

/-- Whatever `malloc` leaves in the buffer, the readers agree exactly if `fread` returns the whole
    file at once. -/
theorem readers_agree (hfile : files path = some content) (hpos : 1 ≤ content.length)
    (hle : content.length ≤ maxFileSize) (hreads : ReadsOf content.length reads) :
    (∀ heap, readLocalFileNaive {} reads heap files path = some (readLocalFileMmap {} files path)) ↔
      reads.length = 1 := by
  have hnaive (heap : Nat → UInt8) := readLocalFileNaive_ok hfile hpos hle hreads heap
  simp only [hnaive, readLocalFileMmap_ok hfile hpos hle, Option.some.injEq, Except.ok.injEq, Prod.mk.injEq, and_true]
  constructor
  · intro h
    by_contra hone
    -- every chunk is shorter than the file, so its last byte is what `malloc` left there
    have hshort : ∀ k ∈ reads, k ≤ content.length - 1 := by
      obtain ⟨hk, hsum⟩ := hreads
      intro k hmem
      obtain ⟨l, l', rfl⟩ := List.append_of_mem hmem
      rw [List.sum_append, List.sum_cons] at hsum
      have hrest : 0 < l.sum + l'.sum := by
        cases l with
        | cons x l =>
          have := (hk x (by simp)).1
          rw [List.sum_cons]
          omega
        | nil =>
          cases l' with
          | nil => exact absurd rfl hone
          | cons x l' =>
            have := (hk x (by simp)).1
            rw [List.sum_cons]
            omega
      omega
    have hlast := h fun i => content.getD i 0 + 1
    have hget := readLoop_untouched reads 0
      ((List.range content.length).map fun i => content.getD i 0 + 1) hshort
      (show 0 + reads.sum ≤ content.length by rw [hreads.2]; omega)
    have hin : content.length - 1 < content.length := by omega
    rw [hlast, List.getElem?_map, List.getElem?_range hin, List.getElem?_eq_getElem hin, Option.map_some,
      List.getD_eq_getElem?_getD, List.getElem?_eq_getElem hin, Option.getD_some, Option.some.injEq] at hget
    exact byte_ne_succ _ hget
  · intro hone heap
    obtain ⟨k, rfl⟩ := List.length_eq_one_iff.mp hone
    obtain rfl : k = content.length := by simpa using hreads.2
    apply readLoop_single
    simp

theorem readers_agree_single : (∀ heap, readLocalFileNaive {} [2] heap (fun _ => some [0x61, 0x62]) "f" =
    some (readLocalFileMmap {} (fun _ => some [0x61, 0x62]) "f")) ↔ [2].length = 1 :=
  readers_agree (show (fun _ => some [0x61, 0x62] : Files) "f" = some [0x61, 0x62] from rfl) (by decide) (by decide) (by decide)

/-- A file of two bytes, returned one at a time: the second one is copied over the first. -/
theorem readers_disagree :
    readLocalFileNaive {} [1, 1] (fun _ => 0) (fun _ => some [0x61, 0x62]) "f" = some (.ok ([0x62, 0], 2)) ∧
    ¬∀ (content : List UInt8) (reads : List Nat) (heap : Nat → UInt8) (files : Files) (path : String),
      files path = some content → 1 ≤ content.length → content.length ≤ maxFileSize → ReadsOf content.length reads →
      readLocalFileNaive {} reads heap files path = some (readLocalFileMmap {} files path) := by
  refine ⟨rfl, fun h => ?_⟩
  have hagree := h [0x61, 0x62] [1, 1] (fun _ => 0) (fun _ => some [0x61, 0x62]) "f" rfl (by decide) (by decide) (by decide)
  have hdiffer : (readLocalFileNaive {} [1, 1] (fun _ => 0) (fun _ => some [0x61, 0x62]) "f").map (·.toOption) ≠
      some (readLocalFileMmap {} (fun _ => some [0x61, 0x62]) "f").toOption := by decide
  rw [hagree] at hdiffer
  exact hdiffer rfl

end readers

/-! ## Written files -/

section writes
variable {files files' : Files} {path : String} {call : WriteCall} {calls : List WriteCall}

theorem writeLocalFile_success (h : (writeLocalFile call files).1 = .success) :
    writeLocalFile call files = (.success, Function.update files call.path
      (some (call.data ++ ((files call.path).getD []).drop call.data.length))) := by
  unfold writeLocalFile at h ⊢
  split at h
  · cases h
  · next hopen =>
    rw [if_neg hopen]
    dsimp only at h ⊢
    split at h
    · cases h
    · next hwritten =>
      rw [if_neg hwritten, not_not.mp hwritten, List.take_length]

theorem writeFiles_cons (h : writeFiles (call :: calls) files = some files') :
    writeFiles calls (Function.update files call.path
      (some (call.data ++ ((files call.path).getD []).drop call.data.length))) = some files' := by
  rw [writeFiles] at h
  split at h
  · next t ht =>
    have hs := writeLocalFile_success (show (writeLocalFile call files).1 = .success by rw [ht])
    rw [ht] at hs
    rw [← (Prod.mk.inj hs).2]
    exact h
  · cases h

theorem writeFiles_append : ∀ (calls calls' : List WriteCall) (files : Files),
    writeFiles (calls ++ calls') files = (writeFiles calls files).bind (writeFiles calls')
  | [], _, _ => rfl
  | call :: calls, calls', files => by
    rw [List.cons_append, writeFiles, writeFiles]
    split
    · exact writeFiles_append calls calls' _
    · rfl

/-- What a path holds, `[]` where there is no file. -/
def Files.content (files : Files) (path : String) : List UInt8 := (files path).getD []

/-- A file never gets shorter: it is as long as the longest of what it held and what was written. -/
theorem writeFiles_length (calls : List WriteCall) : ∀ {files files' : Files}, writeFiles calls files = some files' →
    ∀ n, (files'.content path).length ≤ n ↔
      (files.content path).length ≤ n ∧ ∀ call ∈ calls, call.path = path → call.data.length ≤ n := by
  induction calls with
  | nil =>
    intro files files' h n
    obtain rfl := Option.some.inj h
    simp
  | cons call calls ih =>
    intro files files' h n
    rw [ih (writeFiles_cons h) n, List.forall_mem_cons]
    by_cases hp : call.path = path
    · subst hp
      simp only [Files.content, Function.update_self, Option.getD_some, List.length_append, List.length_drop, forall_const]
      constructor
      · rintro ⟨hlen, hrest⟩
        exact ⟨by omega, by omega, hrest⟩
      · rintro ⟨hold, hdata, hrest⟩
        exact ⟨by omega, hrest⟩
    · simp [Files.content, Function.update_of_ne (Ne.symm hp), hp]

/-- Calls on other paths leave a file alone. -/
theorem writeFiles_other (calls : List WriteCall) : ∀ {files files' : Files}, writeFiles calls files = some files' →
    (∀ call ∈ calls, call.path ≠ path) → files' path = files path := by
  induction calls with
  | nil =>
    intro files files' h _
    obtain rfl := Option.some.inj h
    rfl
  | cons call calls ih =>
    intro files files' h hother
    rw [ih (writeFiles_cons h) fun x hx => hother x (by simp [hx]),
      Function.update_of_ne (Ne.symm (hother call (by simp)))]

/-- The last write to a path reads back exactly if nothing it held before was longer. -/
theorem written_reads_back {before after : List WriteCall} (h : writeFiles (before ++ call :: after) files = some files')
    (hlast : ∀ x ∈ after, x.path ≠ call.path) (hpos : 1 ≤ call.data.length) (hle : call.data.length ≤ maxFileSize) :
    readLocalFileMmap {} files' call.path = .ok (call.data, call.data.length) ↔
      (files.content call.path).length ≤ call.data.length ∧
        ∀ x ∈ before, x.path = call.path → x.data.length ≤ call.data.length := by
  rw [writeFiles_append] at h
  obtain ⟨mid, hbefore, hrest⟩ := Option.bind_eq_some_iff.mp h
  have hafter := writeFiles_cons hrest
  have hend : files' call.path = some (call.data ++ (mid.content call.path).drop call.data.length) := by
    rw [writeFiles_other after hafter hlast, Function.update_self]
    rfl
  rw [← writeFiles_length before hbefore call.data.length]
  constructor
  · intro hread
    have hcontent : call.data ++ (mid.content call.path).drop call.data.length = call.data := by
      unfold readLocalFileMmap openLocalFile at hread
      rw [hend] at hread
      dsimp only at hread
      split at hread
      · next hf => exact absurd hf (by decide)
      · split at hread
        · cases hread
        · exact (Prod.mk.inj (Except.ok.inj hread)).1
    have hlen := congrArg List.length hcontent
    rw [List.length_append, List.length_drop] at hlen
    omega
  · intro hlen
    rw [List.drop_eq_nil_of_le hlen, List.append_nil] at hend
    exact readLocalFileMmap_ok hend hpos hle

/-- Two writes to one path, the second as long as the first. -/
theorem written_reads_back_twice : ∃ files', writeFiles [⟨"f", [1, 2], true, 2⟩, ⟨"f", [3, 4], true, 2⟩] (fun _ => none) = some files' ∧
    (readLocalFileMmap {} files' "f" = .ok ([3, 4], 2) ↔ (Files.content (fun _ => none) "f").length ≤ 2 ∧
      ∀ x ∈ [(⟨"f", [1, 2], true, 2⟩ : WriteCall)], x.path = "f" → x.data.length ≤ 2) :=
  ⟨_, rfl, written_reads_back
    (show writeFiles ([⟨"f", [1, 2], true, 2⟩] ++ ⟨"f", [3, 4], true, 2⟩ :: []) (fun _ => none) = some _ from rfl)
    (by decide) (by decide) (by decide)⟩

/-- A shorter write leaves the rest of the longer one. -/
theorem written_remainder :
    ∃ files', writeFiles [⟨"f", [1, 2, 3], true, 3⟩, ⟨"f", [4], true, 1⟩] (fun _ => none) = some files' ∧
      readLocalFileMmap {} files' "f" = .ok ([4, 2, 3], 3) ∧
      ¬∀ (files files' : Files) (before after : List WriteCall) (call : WriteCall),
        writeFiles (before ++ call :: after) files = some files' → (∀ x ∈ after, x.path ≠ call.path) →
        (∀ x ∈ before ++ call :: after, 1 ≤ x.data.length ∧ x.data.length ≤ maxFileSize) →
        readLocalFileMmap {} files' call.path = .ok (call.data, call.data.length) := by
  refine ⟨_, rfl, rfl, fun h => ?_⟩
  have hread := h (fun _ => none) _ [⟨"f", [1, 2, 3], true, 3⟩] [] ⟨"f", [4], true, 1⟩ rfl (by decide) (by decide)
  have hbytes : [(4 : UInt8), 2, 3] = [4] := (Prod.mk.inj (Except.ok.inj hread)).1
  exact absurd hbytes (by decide)

end writes

end FlexBSO.Compress
