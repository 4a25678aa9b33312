import NvmeVirt.Kv.Commands

/-!
# The payload of a batch

The attributes of the sub-commands stand at the start of the payload, their
keys and values after `struct batch_cmd_head`, each padded to `ALIGN_LEN`.
`payload` lays out a list of stores, and the loop of `__do_perform_kv_batch`
reads back the list that was laid out.
-/

namespace NvmeVirt.KvPayload

open NvmeVirt.Kernel
open NvmeVirt.KvAllocators
open NvmeVirt.KvCommands
open NvmeVirt.KvMapping
open NvmeVirt.Transition

/-- `MAX_SUB_CMD`. -/
def maxSubCmd : ℕ := 8

/-- A store that a batch may carry. -/
structure Storable (sub : SubCmd) : Prop where
  opcode_eq : sub.opcode = kvStoreOpcode
  four_dvd : 4 ∣ sub.value.length
  length_le : sub.value.length ≤ 4096

/-! ## What the loop reads -/

/-- The sub-commands from number `i` and from `payloadOffset` on. -/
def subCmdsFrom (buffer : List UInt8) : ℕ → ℕ → ℕ → Except Fault (List SubCmd)
  | 0, _, _ => .ok []
  | count + 1, i, payloadOffset => do
      let (sub, payloadOffset) ← subCmdAt buffer i payloadOffset
      let subs ← subCmdsFrom buffer count (i + 1) payloadOffset
      return sub :: subs

/-- The payload carries these sub-commands. -/
def Carries (buffer : List UInt8) (subs : List SubCmd) : Prop :=
  subCmdsFrom buffer subs.length 0 alignLen = .ok subs

section

variable (cfg : KvConfig) (search : ZeroAreaSearch) (buffer : List UInt8)

/-- One round of the loop of `__do_perform_kv_batch`. -/
def batchRound (state : KvFtl × ℕ) (i : ℕ) : Except Fault (KvFtl × ℕ) := do
  let (s, payloadOffset) := state
  let (sub, payloadOffset) ← subCmdAt buffer i payloadOffset
  let s ← doPerformKvBatchedIo cfg search s sub
  return (s, payloadOffset)

variable {cfg search buffer}

theorem batchRound_eq {sub : SubCmd} {i payloadOffset next : ℕ}
    (hsub : subCmdAt buffer i payloadOffset = .ok (sub, next)) (s : KvFtl) :
    batchRound cfg search buffer (s, payloadOffset) i = (do
      let s ← doPerformKvBatchedIo cfg search s sub
      return (s, next)) := by
  rw [batchRound]
  dsimp only
  rw [hsub, ok_bind]

/-- The rounds perform the sub-commands that are read, one after the other. -/
theorem foldlM_batchRound {subs : List SubCmd} {count i payloadOffset : ℕ}
    (hsubs : subCmdsFrom buffer count i payloadOffset = .ok subs) :
    ∃ last, ∀ s, (List.range' i count).foldlM (batchRound cfg search buffer)
        (s, payloadOffset) = (do
      let s ← subs.foldlM (doPerformKvBatchedIo cfg search) s
      return (s, last)) := by
  induction count generalizing subs i payloadOffset with
  | zero =>
      cases hsubs
      exact ⟨payloadOffset, fun s => rfl⟩
  | succ count ih =>
      obtain ⟨⟨sub, next⟩, hsub, hrest⟩ := bind_eq_ok hsubs
      obtain ⟨rest, htail, hdone⟩ := bind_eq_ok hrest
      cases hdone
      obtain ⟨last, hlast⟩ := ih htail
      refine ⟨last, fun s => ?_⟩
      rw [List.range'_succ, List.foldlM_cons, List.foldlM_cons,
        batchRound_eq hsub, bind_assoc, bind_assoc]
      apply bind_congr
      intro s'
      exact hlast s'

/-- A batch performs the sub-commands that its payload carries. -/
theorem doPerformKvBatch_eq {subs : List SubCmd} (h : Carries buffer subs)
    (s : KvFtl) :
    doPerformKvBatch cfg search s buffer subs.length =
      subs.foldlM (doPerformKvBatchedIo cfg search) s := by
  obtain ⟨last, hlast⟩ := @foldlM_batchRound cfg search buffer _ _ _ _ h
  calc doPerformKvBatch cfg search s buffer subs.length
      = (do
          let (s, _) ← (List.range subs.length).foldlM
            (batchRound cfg search buffer) (s, alignLen)
          return s) := rfl
    _ = subs.foldlM (doPerformKvBatchedIo cfg search) s := by
        rw [List.range_eq_range', hlast, bind_assoc]
        exact bind_pure _

end

/-! ## A layout -/

/-- A little-endian number of `width` bytes. -/
def littleEndian : ℕ → ℕ → List UInt8
  | 0, _ => []
  | width + 1, number =>
      UInt8.ofNat number :: littleEndian width (number / 256)

/-- Zeros after the bytes, up to `size`. -/
def padTo (size : ℕ) (bytes : List UInt8) : List UInt8 :=
  bytes ++ List.replicate (size - bytes.length) 0

/-- `struct sub_cmd_attribute`. -/
def attrBytes (sub : SubCmd) : List UInt8 :=
  littleEndian 1 sub.opcode ++ littleEndian 1 sub.key.bytes.length ++ [0, 0] ++
    littleEndian 4 sub.value.length ++ List.replicate 8 0

/-- The key and the value of a sub-command, and what follows them. -/
def partBytes (sub : SubCmd) : List UInt8 :=
  padTo (alignedLength sub.key.bytes.length) sub.key.bytes ++
    padTo (alignedLength sub.value.length) sub.value ++
    List.replicate alignLen 0

/-- A payload of sub-commands. -/
def payload (subs : List SubCmd) : List UInt8 :=
  padTo batchHeadSize (subs.flatMap attrBytes) ++ List.replicate alignLen 0 ++
    subs.flatMap partBytes

@[simp]
theorem length_littleEndian (width number : ℕ) :
    (littleEndian width number).length = width := by
  induction width generalizing number with
  | zero => rfl
  | succ width ih => rw [littleEndian, List.length_cons, ih]

theorem ofLittleEndian_littleEndian {width number : ℕ}
    (h : number < 256 ^ width) :
    ofLittleEndian (littleEndian width number) = number := by
  induction width generalizing number with
  | zero => exact (Nat.lt_one_iff.mp h).symm
  | succ width ih =>
      have hrest : number / 256 < 256 ^ width := by
        apply Nat.div_lt_of_lt_mul
        rwa [Nat.pow_succ'] at h
      calc ofLittleEndian (littleEndian (width + 1) number)
          = (UInt8.ofNat number).toNat +
              256 * ofLittleEndian (littleEndian width (number / 256)) := rfl
        _ = number % 256 + 256 * (number / 256) := by
            rw [ih hrest, UInt8.toNat_ofNat']
        _ = number := Nat.mod_add_div number 256

theorem le_alignedLength (length : ℕ) : length ≤ alignedLength length := by
  rw [alignedLength, alignLen]
  omega

@[simp]
theorem length_padTo (size : ℕ) (bytes : List UInt8) :
    (padTo size bytes).length = max size bytes.length := by
  rw [padTo, List.length_append, List.length_replicate]
  omega

@[simp]
theorem length_attrBytes (sub : SubCmd) :
    (attrBytes sub).length = attrSize := by
  simp [attrBytes, attrSize]

@[simp]
theorem length_partBytes (sub : SubCmd) :
    (partBytes sub).length = alignedLength sub.key.bytes.length +
      alignedLength sub.value.length + alignLen := by
  rw [partBytes, List.length_append, List.length_append, length_padTo,
    length_padTo, List.length_replicate,
    Nat.max_eq_left (le_alignedLength _), Nat.max_eq_left (le_alignedLength _)]

theorem length_flatMap_attrBytes (subs : List SubCmd) :
    (subs.flatMap attrBytes).length = attrSize * subs.length := by
  induction subs with
  | nil => rfl
  | cons sub subs ih =>
      rw [List.flatMap_cons, List.length_append, ih, length_attrBytes,
        List.length_cons, Nat.mul_succ, Nat.add_comm]

/-! ## The layout is read back -/

/-- Bytes are read back where they stand in a piece of the buffer. -/
theorem bytesAt_of_append {buffer before piece after left bytes right : List UInt8}
    {offset length : ℕ} (hbuffer : buffer = before ++ piece ++ after)
    (hpiece : piece = left ++ bytes ++ right)
    (hoffset : offset = before.length + left.length)
    (hlength : length = bytes.length) :
    bytesAt buffer offset length = .ok bytes := by
  have hsplit : buffer = (before ++ left) ++ (bytes ++ (right ++ after)) := by
    rw [hbuffer, hpiece]
    simp only [List.append_assoc]
  rw [← List.length_append] at hoffset
  subst hsplit hoffset hlength
  have hrest : (bytes ++ (right ++ after)).length =
      bytes.length + (right ++ after).length := List.length_append
  rw [bytesAt, if_neg, List.drop_left, List.take_left]
  rw [List.length_append, hrest]
  omega

theorem numberAt_of_append {buffer before piece after left right : List UInt8}
    {offset width number : ℕ} (hbuffer : buffer = before ++ piece ++ after)
    (hpiece : piece = left ++ littleEndian width number ++ right)
    (hoffset : offset = before.length + left.length)
    (hlt : number < 256 ^ width) :
    numberAt buffer offset width = .ok number := by
  rw [numberAt, bytesAt_of_append hbuffer hpiece hoffset
    (length_littleEndian width number).symm, ok_bind,
    ofLittleEndian_littleEndian hlt]
  rfl

theorem flatMap_around {β : Type*} (bytesOf : SubCmd → List β)
    (done todo : List SubCmd) (sub : SubCmd) :
    (done ++ sub :: todo).flatMap bytesOf =
      done.flatMap bytesOf ++ bytesOf sub ++ todo.flatMap bytesOf := by
  rw [List.flatMap_append, List.flatMap_cons, List.append_assoc]

/-- Where the attributes of a sub-command stand. -/
theorem payload_attr (done todo : List SubCmd) (sub : SubCmd) :
    ∃ after, payload (done ++ sub :: todo) =
      done.flatMap attrBytes ++ attrBytes sub ++ after := by
  refine ⟨todo.flatMap attrBytes ++
    List.replicate (batchHeadSize -
      ((done ++ sub :: todo).flatMap attrBytes).length) 0 ++
    List.replicate alignLen 0 ++ (done ++ sub :: todo).flatMap partBytes, ?_⟩
  rw [payload, padTo, flatMap_around attrBytes]
  simp only [List.append_assoc]

/-- Where the key and the value of a sub-command stand. -/
theorem payload_part {done todo : List SubCmd} {sub : SubCmd}
    (hcount : (done ++ sub :: todo).length ≤ maxSubCmd) :
    ∃ before after, payload (done ++ sub :: todo) =
        before ++ partBytes sub ++ after ∧
      before.length = batchHeadSize +
        (alignLen + (done.flatMap partBytes).length) := by
  have hhead : attrSize * (done ++ sub :: todo).length ≤ batchHeadSize :=
    (Nat.mul_le_mul_left attrSize hcount).trans (by decide)
  refine ⟨padTo batchHeadSize ((done ++ sub :: todo).flatMap attrBytes) ++
    List.replicate alignLen 0 ++ done.flatMap partBytes,
    todo.flatMap partBytes, ?_, ?_⟩
  · rw [payload, flatMap_around partBytes]
    simp only [List.append_assoc]
  · rw [List.length_append, List.length_append, length_padTo,
      length_flatMap_attrBytes, Nat.max_eq_left hhead, List.length_replicate,
      Nat.add_assoc]

/-- The attributes of a sub-command are read back. -/
theorem attrs_payload {sub : SubCmd} (hsub : Storable sub)
    (done todo : List SubCmd) :
    numberAt (payload (done ++ sub :: todo)) (attrSize * done.length) 1 =
        .ok sub.opcode ∧
      numberAt (payload (done ++ sub :: todo)) (attrSize * done.length + 1) 1 =
        .ok sub.key.bytes.length ∧
      numberAt (payload (done ++ sub :: todo)) (attrSize * done.length + 4) 4 =
        .ok sub.value.length := by
  obtain ⟨after, hattr⟩ := payload_attr done todo sub
  have hplace := length_flatMap_attrBytes done
  refine ⟨?_, ?_, ?_⟩
  · apply numberAt_of_append hattr
    · rw [attrBytes, List.append_assoc, List.append_assoc, List.append_assoc,
        ← List.nil_append (littleEndian 1 sub.opcode)]
      rfl
    · exact hplace.symm
    · rw [hsub.opcode_eq]
      decide
  · have hpiece : attrBytes sub = littleEndian 1 sub.opcode ++
        littleEndian 1 sub.key.bytes.length ++
        ([0, 0] ++ (littleEndian 4 sub.value.length ++
          List.replicate 8 0)) := by
      rw [attrBytes]
      simp only [List.append_assoc]
    have hkey := sub.key.length_le
    apply numberAt_of_append hattr hpiece
    · rw [hplace, length_littleEndian]
    · omega
  · have hvalue := hsub.length_le
    apply numberAt_of_append hattr
    · rw [attrBytes]
    · rw [hplace]
      simp
    · omega

/-- The key and the value of a sub-command are read back. -/
theorem part_payload {done todo : List SubCmd} (sub : SubCmd)
    (hcount : (done ++ sub :: todo).length ≤ maxSubCmd) :
    bytesAt (payload (done ++ sub :: todo))
        (batchHeadSize + (alignLen + (done.flatMap partBytes).length))
        sub.key.bytes.length = .ok sub.key.bytes ∧
      bytesAt (payload (done ++ sub :: todo))
        (batchHeadSize + (alignLen + (done.flatMap partBytes).length) +
          alignedLength sub.key.bytes.length) sub.value.length =
        .ok sub.value := by
  obtain ⟨before, after, hpart, hbefore⟩ := payload_part hcount
  constructor
  · apply bytesAt_of_append hpart
    · rw [partBytes, padTo, List.append_assoc, List.append_assoc,
        ← List.nil_append sub.key.bytes]
      rfl
    · exact hbefore.symm
    · rfl
  · have hpiece : partBytes sub =
        padTo (alignedLength sub.key.bytes.length) sub.key.bytes ++ sub.value ++
          (List.replicate (alignedLength sub.value.length - sub.value.length) 0 ++
            List.replicate alignLen 0) := by
      have hpad : padTo (alignedLength sub.value.length) sub.value =
        sub.value ++ List.replicate
          (alignedLength sub.value.length - sub.value.length) 0 := rfl
      rw [partBytes, hpad]
      simp only [List.append_assoc]
    apply bytesAt_of_append hpart hpiece
    · rw [hbefore, length_padTo, Nat.max_eq_left (le_alignedLength _)]
    · rfl

/-- A sub-command is read back, and the next one follows it. -/
theorem subCmdAt_payload {done todo : List SubCmd} {sub : SubCmd}
    (hsub : Storable sub) (hcount : (done ++ sub :: todo).length ≤ maxSubCmd) :
    subCmdAt (payload (done ++ sub :: todo)) done.length
        (alignLen + (done.flatMap partBytes).length) =
      .ok (sub, alignLen + ((done ++ [sub]).flatMap partBytes).length) := by
  obtain ⟨hopcode, hkeyLen, hvalLen⟩ := attrs_payload hsub done todo
  obtain ⟨hkey, hvalue⟩ := part_payload sub hcount
  have hfits : ¬ 4097 < sub.value.length :=
    Nat.not_lt.mpr (hsub.length_le.trans (by decide))
  have hnext : ((done ++ [sub]).flatMap partBytes).length =
      (done.flatMap partBytes).length +
        (alignedLength sub.key.bytes.length +
          alignedLength sub.value.length + alignLen) := by
    rw [List.flatMap_append, List.flatMap_singleton, List.length_append,
      length_partBytes]
  rw [subCmdAt, hopcode, ok_bind, hkeyLen, ok_bind, hvalLen, ok_bind, hkey,
    ok_bind, if_neg hfits]
  dsimp only
  rw [hvalue, ok_bind, hnext, dif_pos sub.key.length_le, Nat.add_assoc alignLen]
  rfl

/-- The stores of a payload are read back. -/
theorem subCmdsFrom_payload {done todo : List SubCmd}
    (hsubs : ∀ sub ∈ todo, Storable sub)
    (hcount : (done ++ todo).length ≤ maxSubCmd) :
    subCmdsFrom (payload (done ++ todo)) todo.length done.length
      (alignLen + (done.flatMap partBytes).length) = .ok todo := by
  induction todo generalizing done with
  | nil => rfl
  | cons sub todo ih =>
      have hsplit : done ++ sub :: todo = (done ++ [sub]) ++ todo :=
        List.append_cons done sub todo
      have hrest := ih
        (fun other hother => hsubs other (List.mem_cons_of_mem sub hother))
        (hsplit ▸ hcount)
      rw [List.length_append, List.length_singleton, ← hsplit] at hrest
      rw [List.length_cons, subCmdsFrom,
        subCmdAt_payload (hsubs sub List.mem_cons_self) hcount, ok_bind]
      dsimp only
      rw [hrest]
      rfl

/-- Every list of stores that a batch may carry has a payload. -/
theorem carries_payload {subs : List SubCmd}
    (hsubs : ∀ sub ∈ subs, Storable sub) (hcount : subs.length ≤ maxSubCmd) :
    Carries (payload subs) subs := by
  have hread : subCmdsFrom (payload ([] ++ subs)) subs.length 0
      (alignLen + 0) = .ok subs := subCmdsFrom_payload hsubs hcount
  exact hread

end NvmeVirt.KvPayload
