import KaidaDB.Api.Proof.Auth
import KaidaDB.Server.Installation

/-!
# The key file

What `load_or_create_key` and `regenerate_key` read is what they have written, to its end or not
(`KeyRecord.Kept`): the hash is 64 hex digits, so nothing is trimmed off, and a file that was not written
to its end is shorter. A key is made of letters and digits, so it can be given in a header, and a client
that is not on the host passes with it and with nothing else.
-/

namespace KaidaDB

variable {X : Crates}

/-! ## Hashes -/

theorem trim_of_forall {s : String} (h : ∀ c ∈ s.toList, isWhitespace c = false) : trim s = s := by
  have hkeep : ∀ l : List Char, (∀ c ∈ l, isWhitespace c = false) → l.dropWhile isWhitespace = l := by
    intro l hl
    cases l with
    | nil => rfl
    | cons c l => simp [hl c List.mem_cons_self]
  have hreverse : ∀ c ∈ s.toList.reverse, isWhitespace c = false := by simpa using h
  rw [trim, hkeep _ h, hkeep _ hreverse, List.reverse_reverse, String.ofList_toList]

/-- A character that no text is trimmed of and that UTF-8 has one byte for. -/
def IsPlain (c : Char) : Prop := c.toNat < 0x80 ∧ isWhitespace c = false

theorem isPlain_hexDigit : ∀ n < 16, IsPlain (hexDigit n) := by
  unfold IsPlain
  decide

theorem isPlain_hexEncode (bs : Bytes) : ∀ c ∈ hexEncode bs, IsPlain c := by
  intro c hc
  obtain ⟨b, -, hc⟩ := List.mem_flatMap.1 hc
  have hb : b.toNat < 256 := b.toNat_lt
  rcases List.mem_pair.1 hc with rfl | rfl
  · exact isPlain_hexDigit _ (by omega)
  · exact isPlain_hexDigit _ (by omega)

theorem isPlain_hashKey (password : String) : ∀ c ∈ (hashKey X password).toList, IsPlain c := by
  rw [hashKey, String.toList_ofList]
  exact isPlain_hexEncode _

theorem length_hexEncode (bs : Bytes) : (hexEncode bs).length = 2 * bs.length := by
  induction bs with
  | nil => rfl
  | cons b bs ih =>
    rw [show hexEncode (b :: bs) = _ :: _ :: hexEncode bs from rfl, List.length_cons, List.length_cons, ih,
      List.length_cons]
    omega

theorem length_hashKey (password : String) : (hashKey X password).toList.length = 64 := by
  rw [hashKey, String.toList_ofList, length_hexEncode, Vector.length_toList]

theorem length_encode_hashKey (password : String) :
    (Utf8.encode (hashKey X password).toList).length = 64 := by
  rw [Utf8.encode_ascii fun c hc => (isPlain_hashKey password c hc).1, List.length_map, length_hashKey]

theorem sha256_of_hashKey {password password' : String} (h : hashKey X password = hashKey X password') :
    X.sha256 (Utf8.encode password.toList) = X.sha256 (Utf8.encode password'.toList) :=
  Vector.toList_inj.1 (hexEncode_injective (String.ofList_injective h))

/-- The first bytes of a hash are read back as its first characters. -/
theorem trim_take_hashKey (password : String) (n : Nat) :
    trim (String.ofList ((hashKey X password).toList.take n))
      = String.ofList ((hashKey X password).toList.take n) :=
  trim_of_forall fun c hc => (isPlain_hashKey password c
    (List.mem_of_mem_take (by rwa [String.toList_ofList] at hc))).2

theorem utf8ByteSize_take_hashKey (password : String) (n : Nat) :
    (String.ofList ((hashKey X password).toList.take n)).utf8ByteSize = min n 64 := by
  have hascii : ∀ c ∈ (hashKey X password).toList.take n, c.toNat < 0x80 :=
    fun c hc => (isPlain_hashKey password c (List.mem_of_mem_take hc)).1
  rw [Utf8.utf8ByteSize_ofList, Utf8.encode_ascii hascii, List.length_map, List.length_take, length_hashKey]

theorem decode_take_hashKey (password : String) (n : Nat) :
    Utf8.decode ((Utf8.encode (hashKey X password).toList).take n)
      = some ((hashKey X password).toList.take n) := by
  rw [Utf8.take_encode_ascii fun c hc => (isPlain_hashKey password c hc).1, Utf8.decode_encode]

/-! ## The file and its record -/

/-- The file is what the record says. -/
def KeyRecord.Kept (X : Crates) : KeyRecord → Option Bytes → Prop
  | .missing, keyFile => keyFile = none
  | .damaged, keyFile => ∃ (password : String) (written : Nat), written < 64 ∧
      keyFile = some ((Utf8.encode (hashKey X password).toList).take written)
  | .key password, keyFile => keyFile = some (Utf8.encode (hashKey X password).toList)

variable {record : KeyRecord} {keyFile : Option Bytes}

/-- **Writing a key** leaves what is recorded, and fails as recorded. -/
theorem writeKey_kept (h : record.Kept X keyFile) (io : KeyIo) (password : String) :
    ∃ keyFile', (record.write io password).1.Kept X keyFile' ∧
      (do io.createDir; io.writeKey (hashKey X password) : KeyM Unit) keyFile
        = match (record.write io password).2 with
          | .ok () => .ok () keyFile'
          | .error e => .error e keyFile' := by
  unfold KeyRecord.write KeyIo.createDir KeyIo.writeKey
  cases io.createDirAll with
  | error text => exact ⟨keyFile, h, rfl⟩
  | ok u =>
    cases io.write with
    | done => exact ⟨_, rfl, rfl⟩
    | notOpened text => exact ⟨keyFile, h, rfl⟩
    | stopped text written =>
      refine ⟨_, ?_, rfl⟩
      dsimp only
      split_ifs with hpart
      · exact ⟨password, written, hpart, rfl⟩
      · rw [List.take_of_length_le]
        · rfl
        · exact (length_encode_hashKey password).trans_le (Nat.not_lt.1 hpart)

theorem regenerateKey_kept (h : record.Kept X keyFile) (io : KeyIo) (draws : Draws) :
    ∃ keyFile', (record.write io (generateKey draws)).1.Kept X keyFile' ∧
      regenerateKey X io draws keyFile = match (record.write io (generateKey draws)).2 with
        | .ok () => .ok (generateKey draws) keyFile'
        | .error e => .error e keyFile' := by
  obtain ⟨keyFile', hkept, hrun⟩ := writeKey_kept h io (generateKey draws)
  refine ⟨keyFile', hkept, ?_⟩
  have heq : regenerateKey X io draws
      = (do io.createDir; io.writeKey (hashKey X (generateKey draws)) : KeyM Unit) >>= fun _ =>
        pure (generateKey draws) := by
    rw [bind_assoc]
    rfl
  rw [heq]
  show EStateM.bind _ _ keyFile = _
  rw [EStateM.bind, hrun]
  cases (record.write io (generateKey draws)).2 <;> rfl

theorem text_take_hashKey (io : KeyIo) (password : String) (written : Nat) :
    io.text ((Utf8.encode (hashKey X password).toList).take written)
      = io.readToString.map fun _ => String.ofList ((hashKey X password).toList.take written) := by
  rw [KeyIo.text, decode_take_hashKey]
  cases io.readToString <;> rfl

theorem loadOrCreateKey_some (io : KeyIo) (draws : Draws) (contents : Bytes) :
    loadOrCreateKey X io draws (some contents) = match io.text contents with
      | .error text => .error (.config s!"failed to read server key: {text}") (some contents)
      | .ok text =>
        if (trim text).utf8ByteSize ≠ 64 then
          .error (.config "server key file is corrupt (expected 64-char hex hash)") (some contents)
        else .ok (trim text, none) (some contents) := by
  unfold loadOrCreateKey
  rw [Effects.run_bind, Effects.run_get]
  dsimp only
  cases io.text contents with
  | error text => rfl
  | ok text =>
    dsimp only
    split_ifs <;> rfl

/-- **Loading the key** gives what is recorded: the key that was written to its end, an error if it was
not, and a new key if there is none. -/
theorem loadOrCreateKey_kept (h : record.Kept X keyFile) (io : KeyIo) (draws : Draws) :
    ∃ keyFile', (record.load io (generateKey draws)).1.Kept X keyFile' ∧
      loadOrCreateKey X io draws keyFile = match (record.load io (generateKey draws)).2 with
        | .ok (password, shown) => .ok (hashKey X password, shown) keyFile'
        | .error e => .error e keyFile' := by
  cases record with
  | missing =>
    obtain rfl : keyFile = none := h
    have hmissing : KeyRecord.Kept X .missing none := rfl
    obtain ⟨keyFile', hkept, hrun⟩ := writeKey_kept hmissing io (generateKey draws)
    refine ⟨keyFile', hkept, ?_⟩
    have heq : loadOrCreateKey X io draws none
        = ((do io.createDir; io.writeKey (hashKey X (generateKey draws)) : KeyM Unit) >>= fun _ =>
          pure (hashKey X (generateKey draws), some (generateKey draws))) none := by
      rw [bind_assoc]
      rfl
    rw [heq]
    show EStateM.bind _ _ none = _
    rw [EStateM.bind, hrun, KeyRecord.load]
    cases (KeyRecord.missing.write io (generateKey draws)).2 <;> rfl
  | damaged =>
    obtain ⟨password, written, hpart, rfl⟩ := h
    have hsize : (trim (String.ofList ((hashKey X password).toList.take written))).utf8ByteSize ≠ 64 := by
      rw [trim_take_hashKey, utf8ByteSize_take_hashKey]
      omega
    refine ⟨_, ⟨password, written, hpart, rfl⟩, ?_⟩
    rw [loadOrCreateKey_some, text_take_hashKey, KeyRecord.load]
    cases io.readToString with
    | error text => rfl
    | ok u => exact if_pos hsize
  | key password =>
    obtain rfl : keyFile = some (Utf8.encode (hashKey X password).toList) := h
    have hall : (Utf8.encode (hashKey X password).toList).take 64 = Utf8.encode (hashKey X password).toList :=
      List.take_of_length_le (length_encode_hashKey password).le
    have hsize : (trim (String.ofList ((hashKey X password).toList.take 64))).utf8ByteSize = 64 := by
      rw [trim_take_hashKey, utf8ByteSize_take_hashKey, min_self]
    refine ⟨_, rfl, ?_⟩
    rw [loadOrCreateKey_some, ← hall, text_take_hashKey, KeyRecord.load]
    cases io.readToString with
    | error text => rfl
    | ok u =>
      dsimp only [Except.map]
      rw [if_neg (not_not_intro hsize), trim_take_hashKey,
        List.take_of_length_le (length_hashKey password).le, String.ofList_toList]

/-! ## Clients -/

/-- The key is text that a header value can have. -/
def IsVisible (password : String) : Prop := ∀ c ∈ password.toList, 0x20 ≤ c.toNat ∧ c.toNat < 0x7f

theorem visible_keyChar : ∀ idx : Fin 62, 0x20 ≤ (keyChar idx).toNat ∧ (keyChar idx).toNat < 0x7f := by
  decide

theorem isVisible_generateKey (draws : Draws) : IsVisible (generateKey draws) := by
  intro c hc
  rw [generateKey, String.toList_ofList] at hc
  obtain ⟨idx, -, rfl⟩ := List.mem_map.1 hc
  exact visible_keyChar idx

theorem headerStr_encode {password : String} (h : IsVisible password) :
    headerStr (Utf8.encode password.toList) = some password := by
  have hbyte : ∀ c ∈ password.toList, (UInt8.ofNat c.toNat).toNat = c.toNat := fun c hc => by
    rw [UInt8.toNat_ofNat', Nat.mod_eq_of_lt ((h c hc).2.trans (by decide))]
  rw [headerStr, Utf8.encode_ascii fun c hc => (h c hc).2.trans (by decide), if_pos, List.map_map]
  · have hsame : password.toList.map ((fun b => Char.ofNat b.toNat) ∘ fun c => UInt8.ofNat c.toNat)
        = password.toList := by
      refine (List.map_congr_left fun c hc => ?_).trans (List.map_id _)
      rw [Function.comp_apply, hbyte c hc, Char.ofNat_toNat, id]
    rw [hsame, String.ofList_toList]
  · rw [List.all_eq_true]
    intro b hb
    obtain ⟨c, hc, rfl⟩ := List.mem_map.1 hb
    have hlow : (0x20 : UInt8) ≤ UInt8.ofNat c.toNat := UInt8.le_iff_toNat_le.2 ((hbyte c hc).symm ▸ (h c hc).1)
    have hhigh : UInt8.ofNat c.toNat < 0x7f := UInt8.lt_iff_toNat_lt.2 ((hbyte c hc).symm ▸ (h c hc).2)
    simp [hlow, hhigh]

/-- Text that is read from a header has the bytes of the value. -/
theorem encode_of_headerStr {value : Bytes} {provided : String} (h : headerStr value = some provided) :
    Utf8.encode provided.toList = value := by
  unfold headerStr at h
  split_ifs at h with hall
  cases h
  have hlow : ∀ b ∈ value, b.toNat < 0x80 := by
    intro b hb
    have hb := List.all_eq_true.1 hall b hb
    simp only [Bool.or_eq_true, Bool.and_eq_true, decide_eq_true_eq] at hb
    rcases hb with ⟨-, hlt⟩ | rfl
    · exact (UInt8.lt_iff_toNat_lt.1 hlt).trans (by decide)
    · decide
  have hchar : ∀ b ∈ value, (Char.ofNat b.toNat).toNat = b.toNat := fun b hb => by
    rw [Char.ofNat, dif_pos (.inl ((hlow b hb).trans (by decide)))]
    rfl
  rw [String.toList_ofList, Utf8.encode_ascii, List.map_map]
  · refine (List.map_congr_left fun b hb => ?_).trans (List.map_id _)
    rw [Function.comp_apply, hchar b hb, UInt8.ofNat_toNat, id]
  · intro c hc
    obtain ⟨b, hb, rfl⟩ := List.mem_map.1 hc
    rw [hchar b hb]
    exact hlow b hb

variable {client : Client} {password : String}

/-- **Who is let through**: the host itself, and who gives the password. -/
theorem passes_iff (hvisible : IsVisible password)
    (hinj : ∀ value, client.header "x-server-pass" = some value →
      X.sha256 value = X.sha256 (Utf8.encode password.toList) → value = Utf8.encode password.toList) :
    client.Passes X (hashKey X password) ↔ client.Local ∨ client.Gives password := by
  by_cases hlocal : client.Local
  · obtain ⟨addr, haddr, hloopback⟩ := hlocal
    exact iff_of_true (passes_loopback haddr hloopback) (.inl ⟨addr, haddr, hloopback⟩)
  have hremote : ∀ addr, client.remoteAddr = some addr → addr.ip.isLoopback = false :=
    fun addr haddr => Bool.eq_false_iff.2 fun h => hlocal ⟨addr, haddr, h⟩
  rcases decision_remote hremote with ⟨hpasses, value, provided, hvalue, hprovided, hhash⟩ |
    ⟨hrefused, hunauthorized⟩
  · obtain rfl := encode_of_headerStr hprovided
    exact iff_of_true hpasses (.inr (hvalue.trans (congrArg some (hinj _ hvalue (sha256_of_hashKey hhash)))))
  · refine iff_of_false (fun hpasses => ?_) fun h => ?_
    · obtain ⟨⟨message, hrefuse⟩, -⟩ := hrefused
      exact absurd (hpasses.1.symm.trans hrefuse) nofun
    · exact hunauthorized.pass _ _ (h.resolve_left hlocal) (headerStr_encode hvisible) rfl

theorem passes_of_gives (hvisible : IsVisible password) (h : client.Gives password) :
    client.Passes X (hashKey X password) :=
  (passes_iff hvisible fun _ hvalue _ => Option.some.inj (hvalue.symm.trans h)).2 (.inr h)

end KaidaDB
