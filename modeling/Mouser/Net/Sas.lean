import Mouser.Lib.Digits
import Mouser.Net.Authentication

/-!
# The code that two users compare

The code is six digits of keying material of the connection, for the ids of its two ends in
ascending order. `handshake_shows_one_code` says that the two ends of a handshake show the same
code, and `code_is_shared` that an end that has verified a device's identity shows the code of a
connection that the device is at the other end of.
-/

namespace Mouser

open Framing

/-- `"mouser-sas-v1"` -/
def sasLabel : List UInt8 := Cbor.ascii "mouser-sas-v1"

def sasInfo : List UInt8 := Cbor.ascii "sas"

def sasExportLen : ℕ := 32
def sasDigestLen : ℕ := 4
def sasModulus : ℕ := 1000000

/-- HKDF-SHA256: a salt, the keying material, an info and the length of the output. -/
structure Hkdf where
  expand : List UInt8 → List UInt8 → List UInt8 → ℕ → Option (List UInt8)

/-- The ids of both ends, the lower one first. -/
def exporterContext (myId peerId : DeviceId) : List UInt8 :=
  if myId ≤ peerId then myId.bytes ++ peerId.bytes else peerId.bytes ++ myId.bytes

/-- `{value:06}`, of a number of at most six digits. -/
def sixDigits (value : ℕ) : String := .ofList ((Digits.fixed 10 6 value).map Nat.digitChar)

def sasFromExporter (hkdf : Hkdf) (k : List UInt8) : Except LinkError String :=
  match hkdf.expand sasLabel k sasInfo sasDigestLen with
  | none => .error (.tls "sas hkdf expand failed")
  | some digest => .ok (sixDigits (ofLeBytes digest.reverse % sasModulus))

def computeSas (hkdf : Hkdf) (connection : Connection) (myId peerId : DeviceId) :
    Except LinkError String :=
  match connection.exportKeyingMaterial sasLabel (exporterContext myId peerId) sasExportLen with
  | none => .error (.tls "sas exporter unavailable")
  | some k => sasFromExporter hkdf k

theorem exporterContext_comm (a b : DeviceId) : exporterContext a b = exporterContext b a := by
  unfold exporterContext
  rcases lt_trichotomy a b with h | rfl | h
  · rw [if_pos h.le, if_neg (not_le.2 h)]
  · rfl
  · rw [if_neg (not_le.2 h), if_pos h.le]

/-- The context tells the two ids. -/
theorem exporterContext_inj {a b c d : DeviceId} :
    exporterContext a b = exporterContext c d ↔ (a = c ∧ b = d) ∨ (a = d ∧ b = c) := by
  have hinj : ∀ {p q r s : DeviceId}, p.bytes ++ q.bytes = r.bytes ++ s.bytes → p = r ∧ q = s := by
    intro p q r s h
    obtain ⟨hp, hq⟩ := List.append_inj h (p.length_eq.trans r.length_eq.symm)
    exact ⟨DeviceId.bytes_injective hp, DeviceId.bytes_injective hq⟩
  refine ⟨?_, ?_⟩
  · intro h
    unfold exporterContext at h
    split at h <;> split at h <;> obtain ⟨rfl, rfl⟩ := hinj h <;> simp
  · rintro (⟨rfl, rfl⟩ | ⟨rfl, rfl⟩)
    · rfl
    · exact exporterContext_comm _ _

theorem isDigit_digitChar : ∀ d < 10, (Nat.digitChar d).isDigit = true := by decide

/-- The code is six digits. -/
theorem computeSas_digits {hkdf : Hkdf} {connection : Connection} {myId peerId : DeviceId}
    {sas : String} (h : computeSas hkdf connection myId peerId = .ok sas) :
    sas.toList.length = 6 ∧ ∀ c ∈ sas.toList, c.isDigit = true := by
  unfold computeSas at h
  split at h
  · cases h
  unfold sasFromExporter at h
  split at h
  · cases h
  obtain rfl := Except.ok.inj h
  rw [sixDigits, String.toList_ofList]
  refine ⟨by rw [List.length_map, Digits.length_fixed], ?_⟩
  intro c hc
  obtain ⟨d, hd, rfl⟩ := List.mem_map.1 hc
  exact isDigit_digitChar d (Digits.lt_of_mem_fixed (by decide) hd)

/-- Two ends that get the same keying material show one code for their two ids. -/
theorem computeSas_comm (hkdf : Hkdf) {connection connection' : Connection}
    (h : connection.exportKeyingMaterial = connection'.exportKeyingMaterial) (a b : DeviceId) :
    computeSas hkdf connection a b = computeSas hkdf connection' b a := by
  rw [computeSas, computeSas, h, exporterContext_comm]

/-- **The handshake shows one code.** When two ends of one connection have come back from their
handshake, however it ran, they show the same six digits, or neither shows any. -/
theorem handshake_shows_one_code {B : Build} (hB : B.Lawful) (hkdf : Hkdf) {a b : InteractiveEnd}
    (h : a.Connected B b) (sides : List Side) {va vb : VerifiedHello}
    (hleft : ((Exchange.talk B a b).exec (Exchange.act B a) (Exchange.act B b) sides).left =
      .returned (.ok va))
    (hright : ((Exchange.talk B a b).exec (Exchange.act B a) (Exchange.act B b) sides).right =
      .returned (.ok vb)) :
    computeSas hkdf a.connection (a.identity.deviceId B.crypto) va.peerId =
        computeSas hkdf b.connection (b.identity.deviceId B.crypto) vb.peerId ∧
      ∀ sas, computeSas hkdf a.connection (a.identity.deviceId B.crypto) va.peerId = .ok sas →
        sas.toList.length = 6 ∧ ∀ c ∈ sas.toList, c.isDigit = true := by
  obtain ⟨moves, hmoves, -, hmore, hend⟩ :=
    Talk.outcome (Exchange.inTurn_agreed hB h).1 Exchange.agreed_stuck sides
  have hall : moves = 8 := by
    by_contra hne
    obtain ⟨side, t, hmove⟩ := hmore (by omega)
    cases side with
    | left =>
      simp only [Talk.move, Talk.moveLeft, hleft, Exchange.act] at hmove
      cases hmove
    | right =>
      simp only [Talk.move, Talk.moveRight, hright, Exchange.act] at hmove
      cases hmove
  have hagreed := hend hall
  have hva : va = Exchange.verifiedOf B a b := by
    rw [hagreed] at hleft
    exact (Except.ok.inj (Exchange.returned.inj hleft)).symm
  have hvb : vb = Exchange.verifiedOf B b a := by
    rw [hagreed] at hright
    exact (Except.ok.inj (Exchange.returned.inj hright)).symm
  subst hva hvb
  exact ⟨computeSas_comm hkdf h.exporter_eq _ _, fun sas hsas => computeSas_digits hsas⟩

/-- An HKDF that shows the first bytes of the keying material. -/
def plainHkdf : Hkdf where
  expand _ k _ length := some (fitTo length k)

theorem handshake_shows_one_code_desk :
    computeSas plainHkdf deskEnd.connection (deskIdentity.deviceId plainCrypto)
        (Exchange.verifiedOf plainBuild deskEnd laptopEnd).peerId =
      computeSas plainHkdf laptopEnd.connection (laptopIdentity.deviceId plainCrypto)
        (Exchange.verifiedOf plainBuild laptopEnd deskEnd).peerId := by
  have hagreed := (Exchange.inTurn_agreed plainBuild_lawful connected_desk_laptop).2
  exact (handshake_shows_one_code plainBuild_lawful plainHkdf connected_desk_laptop
    Exchange.inTurn (congrArg Talk.left hagreed) (congrArg Talk.right hagreed)).1

/-- **The code is that of a shared connection.** An end that has verified a device's identity shows
the code that the device shows at its end of the same connection. -/
theorem code_is_shared {ι κ : Type} [DecidableEq ι] {N : Network ι κ} (hN : N.Sound) (hkdf : Hkdf)
    (inputs : List (ι × EndInput))
    (hunforged : ∀ entry ∈ N.machine.trace Network.init inputs, N.Unforged entry)
    {i : ι} {verified : VerifiedHello}
    (hi : N.machine.exec Network.init inputs i = .exchange (.returned (.ok verified)))
    {d : DeviceIdentity} (hd : N.honest d) (hid : verified.peerId = d.deviceId N.build.crypto) :
    ∃ j, (N.ends j).identity = d ∧ N.session j = N.session i ∧
      computeSas hkdf (N.ends i).connection ((N.ends i).identity.deviceId N.build.crypto)
          verified.peerId =
        computeSas hkdf (N.ends j).connection (d.deviceId N.build.crypto)
          ((N.ends i).identity.deviceId N.build.crypto) := by
  have hknown := (Network.inv_exec hN inputs hunforged).exchange i _ hi verified.peerId rfl
  obtain ⟨j, hj, hsession, -⟩ := hknown.met d hd hid.symm
  refine ⟨j, hj, hsession, ?_⟩
  rw [hid]
  refine computeSas_comm hkdf ?_ _ _
  rw [hN.exporter_eq, hN.exporter_eq, hsession]

theorem code_is_shared_desk :
    ∃ j, (helloNetwork.ends j).identity = deskIdentity ∧
      helloNetwork.session j = helloNetwork.session true ∧
      computeSas plainHkdf (helloNetwork.ends true).connection
          (laptopIdentity.deviceId plainCrypto) (deskIdentity.deviceId plainCrypto) =
        computeSas plainHkdf (helloNetwork.ends j).connection
          (deskIdentity.deviceId plainCrypto) (laptopIdentity.deviceId plainCrypto) :=
  code_is_shared (plainNetwork_sound _ _) plainHkdf helloInputs helloNetwork_unforged
    exec_helloInputs rfl rfl

end Mouser
