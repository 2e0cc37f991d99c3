/-
Tunstile/WireFormat.lean

Four writers and five readers lay out messages independently.  Here they are
put side by side: what a writer leaves at the front of its buffer parses to
its own kind of message, under the index of whoever it is for, and the rest
of the buffer is untouched (`Emits`); a reader refuses whatever does not
parse to its own kind.
-/
import Tunstile.Guard
import Tunstile.Ideal
import Tunstile.Transcript

namespace Tunstile

variable {C : Crypto}

/-- The first `n` bytes of `out` parse to `header`, the others are those of
`buf`. -/
structure Emits (out buf : Bytes) (n : ℕ) (header : MessageHeader) : Prop where
  length_eq : out.length = buf.length
  parses : MessageHeader.tryFrom (out.take n) = .ok header
  drop_eq : out.drop n = buf.drop n

/-- A message written over the front of a buffer. -/
theorem emits_append {msg buf : Bytes} {n : ℕ} {header : MessageHeader} (hlen : msg.length = n)
    (hbuf : n ≤ buf.length) (hparse : MessageHeader.tryFrom msg = .ok header) :
    Emits (msg ++ buf.drop n) buf n header where
  length_eq := by
    rw [List.length_append, List.length_drop, hlen]
    omega
  parses := by rw [List.take_left' hlen, hparse]
  drop_eq := by rw [List.drop_left' hlen]

/-! ### The writers -/

theorem IsInit.tryFrom {sender : UInt32} {t : InitTranscript C} {msg : Bytes}
    (h : IsInit sender t msg) : MessageHeader.tryFrom msg = .ok .handshakeInit :=
  MessageHeader.tryFrom_of_hasType h.hasType (by rw [h.length_eq]; rfl)

theorem IsResp.tryFrom {sender receiver : UInt32} {ephemeral : PublicKey} {tagField msg : Bytes}
    (h : IsResp sender receiver ephemeral tagField msg) :
    MessageHeader.tryFrom msg = .ok (.handshakeResponse receiver) := by
  have hparse := MessageHeader.tryFrom_of_hasType h.hasType (by rw [h.length_eq]; rfl)
  have hreceiver : slice msg ⟨8, 12⟩ = u32ToLe receiver := h.receiver_eq
  simp only [hreceiver, u32FromLe_u32ToLe] at hparse
  exact hparse

theorem tryFrom_dataWire (receiver : UInt32) (counter : UInt64) {field : Bytes}
    (hfield : aeadTagSize ≤ field.length) :
    MessageHeader.tryFrom (dataWire receiver counter field) = .ok (.data receiver) := by
  have hvalid : MessageType.data.validLength (dataWire receiver counter field).length = true := by
    rw [length_dataWire]
    exact decide_eq_true (Nat.add_le_add_left hfield _)
  have hparse := MessageHeader.tryFrom_of_hasType (hasType_dataWire receiver counter field) hvalid
  have hreceiver : slice (dataWire receiver counter field) ⟨4, 8⟩ = u32ToLe receiver :=
    dataWire_receiver receiver counter field
  simp only [hreceiver, u32FromLe_u32ToLe] at hparse
  exact hparse

/-- A field of a message at the front of a buffer. -/
theorem slice_of_front {msg rest field : Bytes} {r : Span} (hlen : r.stop ≤ msg.length)
    (h : slice msg r = field) : slice (msg ++ rest) r = field := by
  rw [slice_append_left hlen, h]

/-- A written initiation, with its sender index. -/
theorem InitSent.initiate_emits {ourPrivate : C.Secret} {peerPublic : PublicKey} {sender : UInt32}
    {ephemeralSecret : C.Secret} {timestamp : C.Tai64N} {cookies cookies' : Generator C}
    {buf out : Bytes} {state : InitSent C}
    (h : InitSent.initiate ourPrivate peerPublic sender ephemeralSecret timestamp cookies buf
      = (.ok state, cookies', out)) :
    Emits out buf initMsgLength .handshakeInit ∧ u32FromLe (slice out initSender) = sender ∧
      state.indexInitiator = sender := by
  rcases InitSent.initiate_cases ourPrivate peerPublic sender ephemeralSecret timestamp cookies
    buf with ⟨-, e, buf', herr⟩ | ⟨hbuf, -, mac1, msg, hok, hmsg⟩
  · cases h.symm.trans herr
  · cases h.symm.trans hok
    refine ⟨emits_append hmsg.length_eq hbuf hmsg.tryFrom, ?_, rfl⟩
    rw [slice_of_front (by rw [hmsg.length_eq]; decide) hmsg.sender_eq, u32FromLe_u32ToLe]

/-- A written response, to the index of the initiation it answers. -/
theorem InitReceived.respond_emits {state : InitReceived C} {index : UInt32}
    {ephemeralSecret : C.Secret} {presharedKey : Option PresharedKey} {timestamp : C.Tai64N}
    {cookies cookies' : Generator C} {buf out : Bytes} {established : ReceiverEstablished C}
    (h : state.respond index ephemeralSecret presharedKey timestamp cookies buf
      = (.ok established, cookies', out)) :
    Emits out buf respMsgLength (.handshakeResponse state.indexInitiator) ∧
      u32FromLe (slice out respSender) = index ∧ established.ourIndex = index ∧
      established.peerIndex = state.indexInitiator := by
  rcases InitReceived.respond_cases state index ephemeralSecret presharedKey timestamp cookies
    buf with ⟨-, e, herr⟩ | ⟨hbuf, mac1, msg, hok, hmsg⟩
  · cases h.symm.trans herr
  · cases h.symm.trans hok
    refine ⟨emits_append hmsg.length_eq hbuf hmsg.tryFrom, ?_, rfl, rfl⟩
    rw [slice_of_front (by rw [hmsg.length_eq]; decide) hmsg.sender_eq, u32FromLe_u32ToLe]

/-- A written cookie reply, to the sender of the message it answers. -/
theorem Verifier.writeCookieReply_emits {v : Verifier C} {X : CookieSeal C}
    {prompting source buf out : Bytes} {secret : CookieSecret} {nonce : CookieNonce}
    (h : v.writeCookieReply X prompting source secret nonce buf = (.ok (), out)) :
    isHandshake prompting = true ∧
      Emits out buf cookieReplyLength (.cookieReply (u32FromLe (slice prompting ⟨4, 8⟩))) := by
  have hprompting : isHandshake prompting = true := by
    cases hp : isHandshake prompting with
    | true => rfl
    | false =>
        rw [writeCookieReply, if_pos (by simp [hp])] at h
        cases h
  have hbuf : cookieReplyLength ≤ buf.length := by
    by_contra hshort
    rw [writeCookieReply, if_neg (by simp [hprompting]), if_pos (not_le.mp hshort)] at h
    cases h
  have hsender := length_sender hprompting
  have hnonce : nonce.toList.length = 24 := nonce.toList_length
  have hfield := v.length_sealedCookie_fst X prompting source secret nonce
  have htag := v.length_sealedCookie_snd X prompting source secret nonce
  rw [writeCookieReply_eq v X source secret nonce hprompting hbuf] at h
  cases h
  exact ⟨hprompting, emits_append (length_cookieWire hsender hnonce hfield htag) hbuf
    (tryFrom_cookieWire hsender hnonce hfield htag)⟩

/-- A written data message, to the peer's index. -/
theorem Transport.send_emits {t t' : Transport C} {payload buf out : Bytes} {len : ℕ}
    (h : t.send payload buf = (.ok len, t', out)) :
    Emits out buf len (.data t.peerIndex) ∧ len = packetLen payload.length := by
  rcases t.send_cases payload buf with ⟨e, herr⟩ | ⟨hbuf, -, hok⟩
  · cases h.symm.trans herr
  · cases h.symm.trans hok
    have hlen : (dataWire t.peerIndex t.sendCounter
        (C.sealed t.sendAead t.sendCounter [] payload)).length = packetLen payload.length := by
      rw [length_dataWire, C.length_sealed, packetLen, transportOverhead]
      omega
    refine ⟨emits_append hlen hbuf (tryFrom_dataWire _ _ ?_), rfl⟩
    rw [C.length_sealed]
    omega

/-- Whatever has been sent before, a data message of `a` parses to one for
`b`. -/
def AddressedTo (a b : Transport C) : Prop :=
  ∀ (n : UInt64) (payload buf : Bytes) (len : ℕ) (t : Transport C) (out : Bytes),
    { a with sendCounter := n }.send payload buf = (.ok len, t, out) →
      Emits out buf len (.data b.ourIndex)

theorem addressedTo_of_peerIndex {a b : Transport C} (h : a.peerIndex = b.ourIndex) :
    AddressedTo a b := by
  intro n payload buf len t out hsend
  rw [← h]
  exact (Transport.send_emits hsend).1

/-- The two ends of a handshake address each other. -/
theorem addressedTo_of_answered {recv : InitReceived C} {index : UInt32}
    {ephemeralSecret : C.Secret} {pskᵣ pskᵢ : Option PresharedKey} {timestamp : C.Tai64N}
    {cookies cookies' : Generator C} {buf out : Bytes} {estᵣ : ReceiverEstablished C}
    {sent : InitSent C} {ourPrivate : C.Secret} {estᵢ : InitiatorEstablished C}
    (hresp : recv.respond index ephemeralSecret pskᵣ timestamp cookies buf
      = (.ok estᵣ, cookies', out))
    (hanswer : sent.responseReceived ourPrivate pskᵢ (out.take respMsgLength) = .ok estᵢ) :
    AddressedTo estᵢ.finish estᵣ.finish ∧ AddressedTo estᵣ.finish estᵢ.finish := by
  have hansw := InitSent.responseReceived_ok_iff.mp hanswer
  obtain ⟨hemits, hsender, hour, hpeer⟩ := InitReceived.respond_emits hresp
  have hparse := hemits.parses
  rw [MessageHeader.tryFrom_of_hasType hansw.hasType (by rw [hansw.length_eq]; rfl)] at hparse
  have hreceiver : u32FromLe (slice (out.take respMsgLength) respReceiver)
      = recv.indexInitiator :=
    MessageHeader.handshakeResponse.inj (Except.ok.inj hparse)
  have hlen : respMsgLength ≤ out.length := by
    have h := hansw.length_eq
    rw [List.length_take] at h
    omega
  have hfront : slice (out.take respMsgLength) respSender = slice out respSender := by
    conv_rhs => rw [← List.take_append_drop respMsgLength out]
    rw [slice_append_left (by rw [hansw.length_eq]; decide)]
  constructor
  · apply addressedTo_of_peerIndex
    show estᵢ.peerIndex = estᵣ.ourIndex
    rw [hansw.est_eq, hour, ← hsender, ← hfront]
  · apply addressedTo_of_peerIndex
    show estᵣ.peerIndex = estᵢ.ourIndex
    rw [hpeer, hansw.est_eq, ← hreceiver, hansw.receiver_eq]

/-! ### The readers -/

theorem InitReceived.receive_refuses {ourPrivate : C.Secret} {packet : Bytes}
    (h : MessageHeader.tryFrom packet ≠ .ok .handshakeInit) :
    ∃ e, InitReceived.receive ourPrivate packet = .error e := by
  cases hreceive : InitReceived.receive ourPrivate packet with
  | error e => exact ⟨e, rfl⟩
  | ok state =>
      have hreceived := InitReceived.receive_ok_iff.mp hreceive
      exact absurd (MessageHeader.tryFrom_of_hasType hreceived.hasType
        (by rw [hreceived.length_eq]; rfl)) h

theorem InitSent.responseReceived_refuses {state : InitSent C} {ourPrivate : C.Secret}
    {presharedKey : Option PresharedKey} {packet : Bytes}
    (h : ∀ receiver, MessageHeader.tryFrom packet ≠ .ok (.handshakeResponse receiver)) :
    ∃ e, state.responseReceived ourPrivate presharedKey packet = .error e := by
  cases hreceive : state.responseReceived ourPrivate presharedKey packet with
  | error e => exact ⟨e, rfl⟩
  | ok established =>
      have hanswered := InitSent.responseReceived_ok_iff.mp hreceive
      exact absurd (MessageHeader.tryFrom_of_hasType hanswered.hasType
        (by rw [hanswered.length_eq]; rfl)) (h _)

theorem Generator.processCookieReply_refuses {g : Generator C} {reply : Bytes} {now : C.Tai64N}
    (h : ∀ receiver, MessageHeader.tryFrom reply ≠ .ok (.cookieReply receiver)) :
    g.processCookieReply reply now = (.error .invalid, g) := by
  unfold processCookieReply
  split
  · rename_i receiver hparse
    exact absurd hparse (h receiver)
  · rfl

theorem Transport.receive_refuses {t : Transport C} {packet : Bytes}
    (h : ∀ receiver, MessageHeader.tryFrom packet ≠ .ok (.data receiver)) :
    ∃ e, t.receive packet = .error e := by
  cases hreceive : t.receive packet with
  | error e => exact ⟨e, rfl⟩
  | ok result =>
      obtain ⟨counter, n, opened⟩ := result
      obtain ⟨payload, hauth, -, -⟩ := Transport.receive_ok_iff.mp hreceive
      have hlen := C.length_of_opened hauth.opened_eq
      rw [List.length_drop] at hlen
      have htag : aeadTagSize = 16 := rfl
      have hvalid : MessageType.data.validLength packet.length = true := by
        refine decide_eq_true ?_
        show dataPayloadOffset + aeadTagSize + 0 ≤ packet.length
        omega
      exact absurd (MessageHeader.tryFrom_of_hasType hauth.hasType hvalid) (h _)

/-- **Emitted messages parse back and address the right index.**  Each writer
leaves a message of its own kind for whoever it is meant for, and the rest of
the buffer as it was; each reader refuses what does not parse to its own
kind. -/
theorem messages_parse_back (C : Crypto) :
    -- the writers
    (∀ (ourPrivate : C.Secret) (peerPublic : PublicKey) (sender : UInt32)
        (ephemeralSecret : C.Secret) (timestamp : C.Tai64N) (cookies cookies' : Generator C)
        (buf out : Bytes) (state : InitSent C),
      InitSent.initiate ourPrivate peerPublic sender ephemeralSecret timestamp cookies buf
          = (.ok state, cookies', out) →
        Emits out buf initMsgLength .handshakeInit ∧
          u32FromLe (slice out initSender) = sender) ∧
    (∀ (state : InitReceived C) (index : UInt32) (ephemeralSecret : C.Secret)
        (presharedKey : Option PresharedKey) (timestamp : C.Tai64N)
        (cookies cookies' : Generator C) (buf out : Bytes) (established : ReceiverEstablished C),
      state.respond index ephemeralSecret presharedKey timestamp cookies buf
          = (.ok established, cookies', out) →
        Emits out buf respMsgLength (.handshakeResponse state.indexInitiator) ∧
          u32FromLe (slice out respSender) = index ∧
          ∀ (ourPrivate : C.Secret) (packet : Bytes),
            InitReceived.receive ourPrivate packet = .ok state →
              state.indexInitiator = u32FromLe (slice packet initSender)) ∧
    (∀ (v : Verifier C) (X : CookieSeal C) (prompting source : Bytes) (secret : CookieSecret)
        (nonce : CookieNonce) (buf out : Bytes),
      v.writeCookieReply X prompting source secret nonce buf = (.ok (), out) →
        (MessageHeader.tryFrom prompting = .ok .handshakeInit ∧
            Emits out buf cookieReplyLength
              (.cookieReply (u32FromLe (slice prompting initSender)))) ∨
          ((∃ i, MessageHeader.tryFrom prompting = .ok (.handshakeResponse i)) ∧
            Emits out buf cookieReplyLength
              (.cookieReply (u32FromLe (slice prompting respSender))))) ∧
    (∀ (t t' : Transport C) (payload buf out : Bytes) (len : ℕ),
      t.send payload buf = (.ok len, t', out) →
        Emits out buf len (.data t.peerIndex) ∧ len = packetLen payload.length) ∧
    -- the index a data message carries is the other end's own
    (∀ (recv : InitReceived C) (index : UInt32) (ephemeralSecret : C.Secret)
        (pskᵣ pskᵢ : Option PresharedKey) (timestamp : C.Tai64N) (cookies cookies' : Generator C)
        (buf out : Bytes) (estᵣ : ReceiverEstablished C) (sent : InitSent C)
        (ourPrivate : C.Secret) (estᵢ : InitiatorEstablished C),
      recv.respond index ephemeralSecret pskᵣ timestamp cookies buf
          = (.ok estᵣ, cookies', out) →
      sent.responseReceived ourPrivate pskᵢ (out.take respMsgLength) = .ok estᵢ →
        AddressedTo estᵢ.finish estᵣ.finish ∧ AddressedTo estᵣ.finish estᵢ.finish) ∧
    -- the readers
    (∀ (ourPrivate : C.Secret) (packet : Bytes),
      MessageHeader.tryFrom packet ≠ .ok .handshakeInit →
        ∃ e, InitReceived.receive ourPrivate packet = .error e) ∧
    (∀ (state : InitSent C) (ourPrivate : C.Secret) (presharedKey : Option PresharedKey)
        (packet : Bytes),
      (∀ receiver, MessageHeader.tryFrom packet ≠ .ok (.handshakeResponse receiver)) →
        ∃ e, state.responseReceived ourPrivate presharedKey packet = .error e) ∧
    (∀ (g : Generator C) (reply : Bytes) (now : C.Tai64N),
      (∀ receiver, MessageHeader.tryFrom reply ≠ .ok (.cookieReply receiver)) →
        (g.processCookieReply reply now).1 = .error .invalid) ∧
    (∀ (t : Transport C) (packet : Bytes),
      (∀ receiver, MessageHeader.tryFrom packet ≠ .ok (.data receiver)) →
        ∃ e, t.receive packet = .error e) := by
  refine ⟨?_, ?_, ?_, ?_, ?_, ?_, ?_, ?_, ?_⟩
  · intro ourPrivate peerPublic sender ephemeralSecret timestamp cookies cookies' buf out state h
    have hemits := InitSent.initiate_emits h
    exact ⟨hemits.1, hemits.2.1⟩
  · intro state index ephemeralSecret presharedKey timestamp cookies cookies' buf out established h
    have hemits := InitReceived.respond_emits h
    exact ⟨hemits.1, hemits.2.1, fun ourPrivate packet hreceive =>
      (InitReceived.receive_ok_iff.mp hreceive).index_eq⟩
  · intro v X prompting source secret nonce buf out h
    obtain ⟨hprompting, hemits⟩ := Verifier.writeCookieReply_emits h
    rcases isHandshake_iff.mp hprompting with hinit | hresp
    · exact Or.inl ⟨hinit, hemits⟩
    · exact Or.inr ⟨hresp, hemits⟩
  · intro t t' payload buf out len h
    exact Transport.send_emits h
  · intro recv index ephemeralSecret pskᵣ pskᵢ timestamp cookies cookies' buf out estᵣ sent
      ourPrivate estᵢ hresp hanswer
    exact addressedTo_of_answered hresp hanswer
  · intro ourPrivate packet h
    exact InitReceived.receive_refuses h
  · intro state ourPrivate presharedKey packet h
    exact InitSent.responseReceived_refuses h
  · intro g reply now h
    rw [Generator.processCookieReply_refuses h]
  · intro t packet h
    exact Transport.receive_refuses h

/-- An initiation at the front of a buffer of 150 bytes. -/
theorem messages_parse_back_symbolic : ∃ state cookies out,
    InitSent.initiate (C := Crypto.symbolic) (1 : UInt8) (Crypto.symbolic.publicKey (2 : UInt8))
        100 (3 : UInt8) Crypto.symbolicTime
        (Generator.new _ (Crypto.symbolic.publicKey (2 : UInt8))) (List.replicate 150 0)
      = (.ok state, cookies, out) ∧
    Emits out (List.replicate 150 0) initMsgLength .handshakeInit ∧
    u32FromLe (slice out initSender) = 100 := by
  rcases InitSent.initiate_cases (C := Crypto.symbolic) (1 : UInt8)
    (Crypto.symbolic.publicKey (2 : UInt8)) 100 (3 : UInt8) Crypto.symbolicTime
    (Generator.new _ (Crypto.symbolic.publicKey (2 : UInt8))) (List.replicate 150 0) with
    ⟨hshort | hdh, -⟩ | ⟨-, -, mac1, msg, hok, -⟩
  · rw [List.length_replicate] at hshort
    exact absurd hshort (by decide)
  · cases hdh
  · exact ⟨_, _, _, hok,
      (messages_parse_back Crypto.symbolic).1 _ _ _ _ _ _ _ _ _ _ hok⟩

end Tunstile
