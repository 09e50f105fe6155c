import ProjektCore.Packet.Sequence

/-!
# The bytes that a failing writer took

A writer may stop at any byte of a sequence of packets. What it took up to then is the beginning of
the encoding, and without an error it is the whole encoding. The number that is returned beside the
error is the number of these bytes exactly if the writer did not stop inside a length: the bytes of
a length whose write fails are not counted.
-/

namespace ProjektCore.Packet

open Foundation

/-- Whether the write of a packet's length fails after some of its bytes were accepted. -/
def tornLength (data : Bytes) (w : Conn Err) : Bool :=
  match lengthOf data with
  | .error _ => false
  | .ok length => (w.accepts (lengthBytes length)).1 ≠ 0 && (w.accepts (lengthBytes length)).2.isSome

/-- Whether the write of a sequence fails inside the length of one of its packets. -/
def tornSequence : List Bytes → Conn Err → Bool
  | [], _ => false
  | packet :: rest, w =>
    match writeTo packet w with
    | (_, some _, _) => tornLength packet w
    | (_, none, w) => tornSequence rest w

/-- What the result of writing says about the bytes that the writer took: they begin the encoding,
they are all of it if there is no error, and their number is returned unless a length was torn. -/
structure Accounts (encoding : Bytes) (torn : Bool) (w : Conn Err)
    (result : ℕ × Option Err × Conn Err) (taken : Bytes) : Prop where
  outgoing : result.2.2.outgoing = w.outgoing ++ taken
  taken_prefix : taken <+: encoding
  count : result.1 = taken.length ↔ torn = false
  complete : result.2.1 = none → taken = encoding ∧ result.1 = encoding.length
  isWriter : result.2.2.IsWriter

variable {w : Conn Err}

/-- The account of a packet. -/
theorem writeTo_accounts (hw : w.IsWriter) (data : Bytes) :
    ∃ taken, Accounts (encode data) (tornLength data w) w (writeTo data w) taken := by
  by_cases hlarge : MaxLength < data.length
  · refine ⟨[], ?_⟩
    rw [writeTo_tooLarge hlarge, tornLength, lengthOf, if_pos hlarge]
    exact ⟨(List.append_nil _).symm, List.nil_prefix, by simp, by simp, hw⟩
  have hlength : lengthOf data = .ok data.length := by rw [lengthOf, if_neg hlarge]
  have htorn : tornLength data w = ((w.accepts (lengthBytes data.length)).1 ≠ 0 &&
      (w.accepts (lengthBytes data.length)).2.isSome) := by
    rw [tornLength, hlength]
  obtain ⟨header, hwrite, hheader, hcount, hall⟩ := hw.write (lengthBytes data.length)
  cases herr : (w.accepts (lengthBytes data.length)).2 with
  | some err =>
    refine ⟨header, ?_⟩
    have hresult : writeTo data w = (0, some err, w.took header) := by
      simp only [writeTo, hlength, hwrite, herr]
    rw [hresult, htorn, herr, ← hcount]
    refine ⟨rfl, hheader.trans (List.prefix_append _ _), ?_, by simp, hw⟩
    cases header <;> simp
  | none =>
    obtain rfl := hall herr
    have hw' : (w.took (lengthBytes data.length)).IsWriter := hw
    obtain ⟨body, hwrite', hbody, hcount', hall'⟩ := hw'.write data
    refine ⟨lengthBytes data.length ++ body, ?_⟩
    have hresult : writeTo data w = ((lengthBytes data.length ++ body).length,
        ((w.took (lengthBytes data.length)).accepts data).2, (w.took (lengthBytes data.length)).took body) := by
      rw [List.length_append, hcount, hcount']
      simp only [writeTo, hlength, hwrite, herr, hwrite']
    rw [hresult, htorn, herr]
    refine ⟨List.append_assoc _ _ _, (List.prefix_append_right_inj _).mpr hbody, by simp, ?_, hw⟩
    intro hnone
    rw [hall' hnone]
    exact ⟨rfl, rfl⟩

/-- The account of a sequence, by induction on the packets that the writer is still to take. -/
theorem sequenceWriteTo_accounts (hw : w.IsWriter) (packets : List Bytes) :
    ∃ taken, Accounts (encodeAll packets) (tornSequence packets w) w (sequenceWriteTo packets w) taken := by
  induction packets generalizing w with
  | nil =>
    exact ⟨[], (List.append_nil _).symm, List.nil_prefix, by simp [sequenceWriteTo, tornSequence],
      fun _ => ⟨rfl, rfl⟩, hw⟩
  | cons packet rest ih =>
    have hencode : encodeAll (packet :: rest) = encode packet ++ encodeAll rest := rfl
    obtain ⟨first, hfirst⟩ := writeTo_accounts hw packet
    rw [hencode, sequenceWriteTo, tornSequence]
    generalize writeTo packet w = result at hfirst ⊢
    obtain ⟨m, err, w₁⟩ := result
    cases err with
    | some err =>
      refine ⟨first, hfirst.outgoing, hfirst.taken_prefix.trans (List.prefix_append _ _), hfirst.count, ?_,
        hfirst.isWriter⟩
      intro hnone
      cases hnone
    | none =>
      obtain ⟨rfl, hm⟩ := hfirst.complete rfl
      obtain ⟨more, hmore⟩ := ih hfirst.isWriter
      simp only at hm
      refine ⟨encode packet ++ more, ?_, (List.prefix_append_right_inj _).mpr hmore.taken_prefix, ?_, ?_,
        hmore.isWriter⟩
      · rw [← List.append_assoc, ← hfirst.outgoing]
        exact hmore.outgoing
      · rw [← hmore.count, List.length_append, hm]
        exact Nat.add_left_cancel_iff
      · intro hnone
        obtain ⟨rfl, hn⟩ := hmore.complete hnone
        exact ⟨rfl, by rw [List.length_append, ← hm, ← hn]⟩

/-- Byte accounting of the packet writers, for every writer that may stop at any byte with an error.
The bytes it took begin the encoding, and without an error they are all of it and as many as the
size that is returned. The returned number is theirs exactly if the writer did not stop inside a
length. -/
theorem write_accounting (w : Conn Err) (hw : w.IsWriter) :
    (∀ (data : Bytes) (n : ℕ) (err : Option Err) (w' : Conn Err), writeTo data w = (n, err, w') →
      ∃ taken, w'.outgoing = w.outgoing ++ taken ∧ taken <+: encode data ∧
        (err = none → n = size data ∧ taken = encode data) ∧
        (n = taken.length ↔ tornLength data w = false)) ∧
    (∀ (packets : List Bytes) (n : ℕ) (err : Option Err) (w' : Conn Err),
      sequenceWriteTo packets w = (n, err, w') →
      ∃ taken, w'.outgoing = w.outgoing ++ taken ∧ taken <+: encodeAll packets ∧
        (err = none → n = sequenceSize packets ∧ taken = encodeAll packets) ∧
        (n = taken.length ↔ tornSequence packets w = false)) := by
  constructor
  · intro data n err w' hwrite
    obtain ⟨taken, htaken⟩ := writeTo_accounts hw data
    rw [hwrite] at htaken
    refine ⟨taken, htaken.outgoing, htaken.taken_prefix, ?_, htaken.count⟩
    intro hnone
    obtain ⟨hall, hn⟩ := htaken.complete hnone
    exact ⟨hn.trans (encode_length data), hall⟩
  · intro packets n err w' hwrite
    obtain ⟨taken, htaken⟩ := sequenceWriteTo_accounts hw packets
    rw [hwrite] at htaken
    refine ⟨taken, htaken.outgoing, htaken.taken_prefix, ?_, htaken.count⟩
    intro hnone
    obtain ⟨hall, hn⟩ := htaken.complete hnone
    exact ⟨hn.trans (encodeAll_length packets), hall⟩

/-- A writer with room for so many bytes at each call; it fails if these are not enough. -/
def stopping (room : ℕ → ℕ) : Conn Err :=
  .new ⟨fun _ => 0, fun _ => none, fun call p =>
    if p.length ≤ room call then (p.length, none) else (room call, some .closed)⟩ [] .eof

/-- Such a writer keeps the contract. -/
theorem stopping_isWriter (room : ℕ → ℕ) : (stopping room).IsWriter := by
  intro call p
  simp only [stopping, Conn.new]
  split
  · exact ⟨le_rfl, fun _ => rfl⟩
  · exact ⟨by omega, nofun⟩

/-- The writer stops after one of the two bytes of the second packet: the six bytes that were taken
are counted. -/
theorem write_accounting_body :
    ∃ taken w', sequenceWriteTo [[1], [2, 3], [4]] (stopping ([2, 1, 2, 1].getD · 0)) =
        (6, some .closed, w') ∧ w'.outgoing = taken ∧ taken = [0, 1, 1, 0, 2, 2] ∧
      6 = taken.length := by
  have hwrite : sequenceWriteTo [[1], [2, 3], [4]] (stopping ([2, 1, 2, 1].getD · 0)) = (6, some .closed,
      (sequenceWriteTo [[1], [2, 3], [4]] (stopping ([2, 1, 2, 1].getD · 0))).2.2) := rfl
  obtain ⟨taken, hout, -, -, hcount⟩ := (write_accounting _ (stopping_isWriter _)).2 _ _ _ _ hwrite
  have htaken : [0, 1, 1, 0, 2, 2] = taken := hout
  exact ⟨taken, _, hwrite, hout, htaken.symm, hcount.mpr rfl⟩

/-- A writer that takes one byte of a length and fails: the byte is not counted. -/
theorem torn_length_uncounted :
    ∃ w', (stopping ([2, 1, 1].getD · 0)).IsWriter ∧
      sequenceWriteTo [[1], [2, 3]] (stopping ([2, 1, 1].getD · 0)) = (3, some .closed, w') ∧
      w'.outgoing = [0, 1, 1, 0] := by
  exact ⟨_, stopping_isWriter _, rfl, rfl⟩

end ProjektCore.Packet
