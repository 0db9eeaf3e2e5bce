/-
What is got from a vault after any number of puts.

The end of a vault's content is not stored anywhere: a get stops at the first scratchpad
that is not full.  What it compares with the maximum is the length of the encrypted
piece, though, and encryption adds to it.  A last piece that is short of the maximum by
no more than that looks full, and a get goes on: into a scratchpad that was never
written, which is an error, or into what an earlier put has left there, which it returns
as well.
-/
import Autonomi.Lib.Transition
import Autonomi.Proofs.VaultChain
import Autonomi.Proofs.WalletPayments

namespace Autonomi

open Lib List

namespace Client

open Lib.Fallible

/-! ### Reading what was filled in -/

/-- The length of the last piece of so many bytes. -/
def lastPieceLength (length : Nat) : Nat := (length - 1) % maxContentPerScratchpad + 1

theorem lastPieceLength_of_le {length : Nat} (hpos : 0 < length)
    (hle : length ≤ maxContentPerScratchpad) : lastPieceLength length = length := by
  rw [lastPieceLength, Nat.mod_eq_of_lt (by omega)]
  omega

theorem lastPieceLength_sub {length : Nat} (hlt : maxContentPerScratchpad < length) :
    lastPieceLength (length - maxContentPerScratchpad) = lastPieceLength length := by
  rw [lastPieceLength, lastPieceLength, Nat.mod_eq_sub_mod (a := length - 1) (by omega),
    Nat.sub_right_comm]

variable {pads : List Pad}

/-- The pads that were filled come first, and the others are what they were. -/
theorem fillPads_eq {pieces : List Piece} (h : pieces.length ≤ pads.length) :
    ∃ written, fillPads pads pieces = written ++ pads.drop pieces.length ∧
      written.map Prod.snd = pieces.map some := by
  induction pieces generalizing pads with
  | nil => exact ⟨[], fillPads_nil pads, rfl⟩
  | cons piece pieces ih =>
    cases pads with
    | nil => exact absurd h (Nat.not_succ_le_zero _)
    | cons pad pads =>
      obtain ⟨written, hfill, hwritten⟩ := ih (Nat.le_of_succ_le_succ h)
      refine ⟨(pad.1, some piece) :: written, ?_, ?_⟩
      · rw [fillPads, hfill]
        rfl
      · rw [map_cons, hwritten]
        rfl

section Reading

variable {overhead : Nat} {contentType : VaultContentType}

/-- Data is read back if its last piece looks like the last; otherwise what follows is read with
it. -/
theorem readPads_pieces (rest : List Pad) (data : Bytes) :
    ∀ written : List Pad, data ≠ [] →
      written.map Prod.snd
        = (vaultSplitBytes data).map (fun content => some ⟨content, contentType⟩) →
      readPads overhead (written ++ rest)
        = if lastPieceLength data.length + overhead < maxContentPerScratchpad then
            some (data, contentType)
          else (readPads overhead rest).map fun more => (data ++ more.1, more.2) := by
  unfold vaultSplitBytes
  induction data using batches.induct maxContentPerScratchpad with
  | case1 => intro _ hempty; exact absurd rfl hempty
  | case2 a l ih =>
    intro written _ hwritten
    rw [batches_of_ne_nil (cons_ne_nil a l)] at hwritten
    obtain ⟨⟨index, content⟩, others, rfl, hfirst, hothers⟩ := map_eq_cons_iff.mp hwritten
    obtain rfl : content = _ := hfirst
    rw [cons_append, readPads]
    by_cases hle : (a :: l).length ≤ maxContentPerScratchpad
    · -- the only piece
      rw [drop_of_length_le hle, batches_nil] at hothers
      obtain rfl := map_eq_nil_iff.mp hothers
      have hlast : lastPieceLength (a :: l).length = (a :: l).length :=
        lastPieceLength_of_le (Nat.succ_pos _) hle
      rw [take_of_length_le hle, hlast]
      rfl
    · -- a full piece, which never looks like the last
      have hlt := not_le.mp hle
      have hdrop : ((a :: l).drop maxContentPerScratchpad) ≠ [] := by
        intro hnil
        exact hle (drop_eq_nil_iff.mp hnil)
      rw [if_neg (by rw [length_take_of_le (le_of_lt hlt)]; omega),
        ih others hdrop hothers, length_drop, lastPieceLength_sub hlt]
      by_cases hlast : lastPieceLength (a :: l).length + overhead < maxContentPerScratchpad
      · rw [if_pos hlast, if_pos hlast, Option.map_some, take_append_drop]
      · rw [if_neg hlast, if_neg hlast, Option.map_map]
        simp only [Function.comp_def, ← append_assoc, take_append_drop]

theorem readPads_ne_nil {read : Bytes × VaultContentType}
    (hpads : ∀ pad ∈ pads, ∀ piece, pad.2 = some piece → piece.content ≠ [])
    (h : readPads overhead pads = some read) : read.1 ≠ [] := by
  cases pads with
  | nil => cases h
  | cons pad pads =>
    obtain ⟨index, content⟩ := pad
    cases content with
    | none => cases h
    | some piece =>
      have hpiece := hpads (index, some piece) mem_cons_self piece rfl
      rw [readPads] at h
      split at h
      · rw [← Option.some.inj h]
        exact hpiece
      · obtain ⟨rest, -, rfl⟩ := Option.map_eq_some_iff.mp h
        exact append_ne_nil_of_left_ne_nil hpiece _

/-- **Filled with the pieces of some data, the pads are read as that data exactly if its last piece
looks like the last.** -/
theorem readPads_fillPads_iff {data : Bytes} (hdata : data ≠ [])
    (hlength : (vaultSplitBytes data).length ≤ pads.length)
    (hpads : ∀ pad ∈ fillPads pads ((vaultSplitBytes data).map (⟨·, contentType⟩)), ∀ piece,
      pad.2 = some piece → piece.content ≠ []) :
    readPads overhead (fillPads pads ((vaultSplitBytes data).map (⟨·, contentType⟩)))
        = some (data, contentType) ↔
      lastPieceLength data.length + overhead < maxContentPerScratchpad := by
  have hfits : ((vaultSplitBytes data).map fun content => Piece.mk content contentType).length
      ≤ pads.length := by rwa [length_map]
  obtain ⟨written, hfill, hwritten⟩ := fillPads_eq hfits
  rw [map_map] at hwritten
  rw [hfill] at hpads ⊢
  rw [readPads_pieces _ data written hdata hwritten]
  by_cases hlast : lastPieceLength data.length + overhead < maxContentPerScratchpad
  · rw [if_pos hlast]
    exact iff_of_true rfl hlast
  · rw [if_neg hlast]
    refine iff_of_false (fun h => ?_) hlast
    obtain ⟨more, hmore, heq⟩ := Option.map_eq_some_iff.mp h
    refine readPads_ne_nil (fun pad hpad => hpads pad (mem_append_right _ hpad)) hmore ?_
    exact append_cancel_left ((congrArg Prod.fst heq).trans (append_nil data).symm)

end Reading

namespace Network

variable {client : Client} (net : Network client) (owner : SecretKey)

/-! ### Puts one after the other -/

structure VaultPut where
  data : Bytes
  contentType : VaultContentType
  paymentOption : PaymentOption
  steps : Nat

def vaultPutStep (w : World) (call : VaultPut) : Option World :=
  match net.run (client.vaultPut call.steps call.data call.paymentOption owner call.contentType) w
    with
  | (.ok (some _), w') => some w'
  | _ => none

def VaultReturns (w : World) (data : Bytes) (contentType : VaultContentType) : Prop :=
  ∃ enough, ∀ steps, enough ≤ steps →
    ∃ w', net.run (client.vaultGet steps owner) w = (.ok (some (data, contentType)), w')

variable {net owner} {w w' : World}

theorem vaultPutStep_eq_some {call : VaultPut} :
    net.vaultPutStep owner w call = some w' ↔ ∃ cost, net.run (client.vaultPut call.steps
      call.data call.paymentOption owner call.contentType) w = (.ok (some cost), w') := by
  unfold vaultPutStep
  rcases net.run (client.vaultPut call.steps call.data call.paymentOption owner call.contentType) w
    with ⟨_ | _ | _, _⟩ <;> simp

theorem drawn_le_of_runSteps {calls : List VaultPut} :
    ∀ {w : World}, runSteps (net.vaultPutStep owner) w calls = some w' →
      w.drawn.length ≤ w'.drawn.length := by
  induction calls with
  | nil => intro w h; rw [Option.some.inj h]
  | cons call calls ih =>
    intro w h
    obtain ⟨w₁, hstep, hrest⟩ := Option.bind_eq_some_iff.mp h
    obtain ⟨cost, hput⟩ := vaultPutStep_eq_some.mp hstep
    exact (net.drawn_le hput).trans (ih hrest)

theorem storesVault_of_runSteps {limit : Nat} {calls : List VaultPut} :
    ∀ {w : World} {blocks : List Block} {pads : List Pad},
      net.StoresVault owner limit w blocks pads →
      runSteps (net.vaultPutStep owner) w calls = some w' → w'.drawn.length ≤ limit →
      ∃ blocks' pads', net.StoresVault owner limit w' blocks' pads' := by
  induction calls with
  | nil =>
    intro w blocks pads h hrun _
    cases hrun
    exact ⟨blocks, pads, h⟩
  | cons call calls ih =>
    intro w blocks pads h hrun hlimit
    obtain ⟨w₁, hstep, hrest⟩ := Option.bind_eq_some_iff.mp hrun
    obtain ⟨cost, hput⟩ := vaultPutStep_eq_some.mp hstep
    obtain ⟨-, blocks₁, pads₁, -, h₁⟩ := storesVault_of_vaultPut h hput
      ((drawn_le_of_runSteps hrest).trans hlimit)
    exact ih h₁ hrest hlimit

variable {blocks : List Block}

theorem vaultReturns_iff {overhead limit : Nat} (hencrypts : client.crypto.Encrypts overhead)
    (h : net.StoresVault owner limit w blocks pads) (data : Bytes)
    (contentType : VaultContentType) :
    net.VaultReturns owner w data contentType ↔
      readPads overhead pads = some (data, contentType) := by
  constructor
  · rintro ⟨enough, hreturns⟩
    obtain ⟨w', hget⟩ := hreturns _ (Nat.le_max_left enough (blocks.length + 1))
    obtain ⟨_, ⟨w'', -, hrun⟩, ⟨read, hread, rfl⟩ | ⟨-, e, rfl⟩⟩ :=
      net.run_vaultGet hencrypts h (Nat.le_max_right enough (blocks.length + 1))
    · rw [hget] at hrun
      rw [hread]
      exact (Except.ok.inj (congrArg Prod.fst hrun)).symm
    · rw [hget] at hrun
      cases congrArg Prod.fst hrun
  · intro hdata
    refine ⟨blocks.length + 1, fun steps hsteps => ?_⟩
    obtain ⟨_, ⟨w', -, hrun⟩, ⟨read, hread, rfl⟩ | ⟨hread, -⟩⟩ :=
      net.run_vaultGet hencrypts h hsteps
    · rw [hdata] at hread
      rw [← Option.some.inj hread] at hrun
      exact ⟨w', hrun⟩
    · rw [hdata] at hread
      cases hread

/-- Filled with the pieces of some data, a vault returns the data exactly if its last piece looks
like the last. -/
theorem vaultReturns_filled_iff {overhead limit : Nat} (hencrypts : client.crypto.Encrypts overhead)
    {data : Bytes} {contentType : VaultContentType} (hdata : data ≠ [])
    (hlength : (vaultSplitBytes data).length ≤ pads.length)
    (h : net.StoresVault owner limit w blocks
      (fillPads pads ((vaultSplitBytes data).map (⟨·, contentType⟩)))) :
    net.VaultReturns owner w data contentType ↔
      lastPieceLength data.length + overhead < maxContentPerScratchpad := by
  rw [vaultReturns_iff hencrypts h]
  refine readPads_fillPads_iff hdata hlength fun pad hpad piece hpiece => ?_
  have hat := h.pad pad hpad
  rw [hpiece] at hat
  exact hat.1

/-! ### A first put -/

section FirstPut

variable {contentType : VaultContentType} {wallet : Wallet} {limit : Nat}
  (hpays : ∀ time, net.Pays (.wallet wallet) time)

include hpays

theorem run_vaultExpandCapacity_ok (h : net.StoresVault owner limit w blocks pads)
    (hputs : ∀ time, ¬ net.PutsCanFail client.graphEntry time)
    (hlimit : w.drawn.length + (numOfScratchpadsPerGraphEntry + 1) ≤ limit) :
    ∃ (block : Block) (cost : Amount) (w' : World), net.run (client.vaultExpandCapacity owner
        (freeIndex vaultHeadDerivationIndex blocks) (.wallet wallet)) w
          = (.ok (block.next, block.pads.map (client.derivedKey owner), cost), w') ∧
      w'.drawn.length = w.drawn.length + (numOfScratchpadsPerGraphEntry + 1) ∧
      net.StoresVault owner limit w' (blocks ++ [block]) (pads ++ block.newPads) := by
  obtain ⟨block, w₁, hnumbers, hstore, hdrawn, hput⟩ := net.run_vaultExpandCapacity owner
    (freeIndex vaultHeadDerivationIndex blocks) (.wallet wallet) w
  rcases net.run_graphEntryPut w₁ (.wallet wallet) (client.blockEntry owner
      (freeIndex vaultHeadDerivationIndex blocks) block) with
    ⟨price, w₂, hentry, hstored, -⟩ | ⟨e, w₂, -, -, ⟨-, hnot⟩ | ⟨-, hfails⟩⟩
  · have hrun := hput.trans (runIn_bind_of_ok (runIn_mapError_of_ok hentry))
    exact ⟨block, price, w₂, hrun, by rw [hstored.drawn, hdrawn],
      h.expand hnumbers hstore hdrawn (hdrawn ▸ hlimit) hstored⟩
  · exact absurd ((congrFun hstore _).trans (h.unused _ mem_cons_self)) hnot
  · exact absurd (hfails (hpays _)) (hputs _)

theorem run_vaultWriteScratchpad_ok {index : DerivationIndex} {content : Bytes}
    (hnone : w.under client.crypto (client.indexAddress owner index) = none)
    (hverify : ∀ number, client.scratchpadVerify (.new client.crypto number
      (client.indexKey owner index) contentType content 0) = .ok ())
    (hputs : ∀ time, ¬ net.PutsCanFail client.scratchpad time) :
    ∃ (price : Amount) (w' : World), net.run (client.vaultWriteScratchpad owner contentType
        (.wallet wallet) (client.derivedKey owner index, content)) w = (.ok (some price), w') ∧
      w'.drawn.length = w.drawn.length + 1 := by
  have hcheck : net.run (mapError VaultError.scratchpad
      (client.scratchpadCheckExistence (client.indexAddress owner index))) w
        = (.ok false, w.tick) := by
    refine (runIn_mapError_of_ok (run_scratchpadCheckExistence _)).trans ?_
    rw [hnone]
    rfl
  have hputsPaid := net.putsPaid_scratchpadPut (w := (net.drawnNext w.tick.tick).tick)
    (hverify (net.random w.drawn.length)) (.wallet wallet) hnone
  rcases hputsPaid with ⟨price, w₂, hput, hstored, -⟩ | ⟨e, w₂, -, -, hfail⟩
  · refine ⟨price, w₂, ?_, ?_⟩
    · exact (runIn_bind_of_ok hcheck).trans (runIn_bind_of_ok
        (runIn_mapError_of_ok ((run_scratchpadCreate (w := w.tick) hnone).trans hput)))
    · rw [hstored.drawn]
      exact length_append
  · exact absurd (hfail hnone (hpays _)) (hputs _)

theorem run_vaultPut_ok {data : Bytes} {steps : Nat}
    (h : net.StoresVault owner limit w [] []) (hdata : data ≠ [])
    (hfits : data.length ≤ maxContentPerScratchpad) (hsteps : 0 < steps)
    (hverify : ∀ number key, client.scratchpadVerify
      (.new client.crypto number key contentType data 0) = .ok ())
    (hentries : ∀ time, ¬ net.PutsCanFail client.graphEntry time)
    (hpads : ∀ time, ¬ net.PutsCanFail client.scratchpad time)
    (hlimit : w.drawn.length + (numOfScratchpadsPerGraphEntry + 1) ≤ limit) :
    ∃ (cost : Amount) (w' : World), net.run (client.vaultPut steps data (.wallet wallet) owner
        contentType) w = (.ok (some cost), w') ∧
      w'.drawn.length = w.drawn.length + (numOfScratchpadsPerGraphEntry + 2) := by
  have hsplit : vaultSplitBytes data = [data] := batches_of_length_le hdata hfits
  obtain ⟨w₁, hstill, hclaimed⟩ := net.run_vaultClaimedCapacity [] steps vaultHeadDerivationIndex []
    w h.chain (h.unused _ mem_cons_self)
  rw [if_pos (show ([] : List Block).length < steps from hsteps)] at hclaimed
  obtain ⟨block, graphCost, w₂, hexpand, hdrawn₂, h₂⟩ := run_vaultExpandCapacity_ok hpays
    (h.still hstill) hentries (by rw [hstill.drawn]; exact hlimit)
  have hexpanded : net.run (client.vaultExpandUntil owner (.wallet wallet) 1 1
      vaultHeadDerivationIndex [] 0) w₁
        = (.ok (block.pads.map (client.derivedKey owner), 0 + graphCost), w₂) := by
    exact (runIn_bind_of_ok hexpand).trans rfl
  obtain ⟨index, others, hpadsList⟩ := exists_cons_of_length_eq_add_one block.size
  have hnone : w₂.under client.crypto (client.indexAddress owner index) = none :=
    h₂.pad (index, none) (by simp [Block.newPads, hpadsList])
  obtain ⟨price, w₃, hwrite, hdrawn₃⟩ :=
    run_vaultWriteScratchpad_ok hpays hnone (fun number => hverify number _) hpads
  have hwrites : net.run (each (fun task => attempt (client.vaultWriteScratchpad owner contentType
      (.wallet wallet) task)) ((block.pads.map (client.derivedKey owner)).zip [data]) :
        ClientM VaultError _) w₂ = (.ok [.ok (some price)], w₃) := by
    rw [hpadsList, map_cons, zip_cons_cons, zip_nil_right]
    exact (runIn_bind_of_ok (runIn_attempt hwrite)).trans rfl
  obtain ⟨order, horder⟩ := net.run_inAnyOrder
    [(.ok (some price) : Except VaultError (Option Amount))] w₃
  rw [perm_singleton.mp (arrange_perm _ order)] at horder
  refine ⟨0 + graphCost + price, w₃.tick, ?_, ?_⟩
  · rw [vaultPut, hsplit]
    refine (runIn_bind_of_ok (by rw [reject, if_neg hdata]; rfl)).trans ?_
    refine (runIn_bind_of_ok hclaimed).trans ?_
    refine (runIn_bind_of_ok hexpanded).trans ?_
    refine (runIn_bind_of_ok hwrites).trans ?_
    exact (runIn_bind_of_ok horder).trans rfl
  · show w₃.drawn.length = _
    rw [hdrawn₃, hdrawn₂, hstill.drawn]
    rfl

end FirstPut

/-! ### Runs -/

/-- **After any number of puts, a get returns the data of the last one exactly if its last piece is
short of the maximum even when it is encrypted.** -/
theorem vault_returns_last_put_iff {overhead : Nat}
    (hencrypts : client.crypto.Encrypts overhead) {w₀ w : World} (calls : List VaultPut)
    (last : VaultPut)
    (hunused : w₀.Unused ((vaultHeadDerivationIndex ::
      net.toDraw w₀.drawn.length w.drawn.length).map (client.indexName owner)))
    (hrun : runSteps (net.vaultPutStep owner) w₀ (calls ++ [last]) = some w) :
    net.VaultReturns owner w last.data last.contentType ↔
      lastPieceLength last.data.length + overhead < maxContentPerScratchpad := by
  rw [runSteps_append] at hrun
  obtain ⟨w₁, hcalls, hlast⟩ := Option.bind_eq_some_iff.mp hrun
  obtain ⟨blocks, pads, h⟩ := storesVault_of_runSteps (storesVault_nil hunused) hcalls
    (drawn_le_of_runSteps hlast)
  obtain ⟨w₂, hstep, hdone⟩ := Option.bind_eq_some_iff.mp hlast
  cases hdone
  obtain ⟨cost, hput⟩ := vaultPutStep_eq_some.mp hstep
  obtain ⟨hdata, blocks', pads', hlength, h'⟩ := storesVault_of_vaultPut h hput le_rfl
  exact vaultReturns_filled_iff hencrypts hdata hlength h'

end Network

/-- The front of the bytes, which tells the keys of a vault apart. -/
def frontHash (bytes : Bytes) : Bytes32 := Vector.ofFn fun i => bytes.getD i.val 0

/-- A network whose names are the keys themselves. -/
abbrev frontNetwork : Network (hashingClient frontHash) := hashingNetwork frontHash

theorem hashingClient_encrypts (hash : Bytes → Bytes32) : (hashingClient hash).crypto.Encrypts 1 :=
  ⟨fun _ _ _ => rfl, fun _ _ _ => rfl, fun _ _ _ => rfl⟩

theorem frontHash_indexName (owner : SecretKey) (index : DerivationIndex) :
    (hashingClient frontHash).indexName owner index = childBytes owner index :=
  resize_resize 48 (by decide) (childBytes owner index)

/-- Nothing is stored yet, and the names that can be drawn are all different. -/
theorem emptyWorld_unused_front (limit : Nat) (h : limit < 2 ^ 16 - 1) :
    emptyWorld.Unused ((vaultHeadDerivationIndex ::
      frontNetwork.toDraw emptyWorld.drawn.length limit).map
        ((hashingClient frontHash).indexName (bytes32 0))) := by
  have hdraws : vaultHeadDerivationIndex :: frontNetwork.toDraw emptyWorld.drawn.length limit
      = (List.range (limit + 1)).map bytes32 := by
    rw [range_succ_eq_map, map_cons, map_map, range_eq_range']
    rfl
  refine ⟨?_, fun _ _ => rfl⟩
  rw [hdraws, map_map]
  refine List.Nodup.map_on (fun n hn m hm heq => ?_) nodup_range
  have hchild : childBytes (bytes32 0) (bytes32 n) = childBytes (bytes32 0) (bytes32 m) :=
    (frontHash_indexName _ _).symm.trans (heq.trans (frontHash_indexName _ _))
  have hn' := mem_range.mp hn
  have hm' := mem_range.mp hm
  exact bytes32_inj (by omega) (by omega) (childBytes_inj hchild)

/-- What the client signs and encrypts itself passes its checks, unless it is too big. -/
theorem scratchpadVerify_new {client : Client} {overhead : Nat} (hkeys : client.crypto.KeysAgree)
    (hencrypts : client.crypto.Encrypts overhead) {data : Bytes}
    (hsize : client.scratchpadStructSize + (data.length + overhead) ≤ Scratchpad.maxSize)
    (number : Bytes32) (key : SecretKey) (contentType counter : UInt64) :
    client.scratchpadVerify (.new client.crypto number key contentType data counter) = .ok () := by
  have hsigned : (Scratchpad.new client.crypto number key contentType data counter).verifySignature
      client.crypto = true := hkeys.verify key _
  have hfits : ¬ (Scratchpad.new client.crypto number key contentType data counter).isTooBig
      client.scratchpadStructSize = true := by
    have hlength : (Scratchpad.new client.crypto number key contentType data counter).size
        client.scratchpadStructSize = client.scratchpadStructSize + (data.length + overhead) :=
      congrArg _ (hencrypts.length _ _ _)
    rw [Scratchpad.isTooBig, hlength, decide_eq_true_iff]
    exact Nat.not_lt.mpr hsize
  simp only [scratchpadVerify, Checks.bind_eq_ok, Checks.reject_eq_ok]
  exact ⟨(), not_not_intro hsigned, hfits⟩

theorem hashingClient_keysAgree (hash : Bytes → Bytes32) : (hashingClient hash).crypto.KeysAgree :=
  Crypto.simple_keysAgree.withHash hash

theorem exists_front_put (data : Bytes) (hdata : data ≠ [])
    (hfits : data.length < maxContentPerScratchpad) :
    ∃ w, runSteps (frontNetwork.vaultPutStep (bytes32 0)) emptyWorld
        [⟨data, 7, .wallet ⟨.arbitrumOne⟩, 1⟩] = some w ∧
      w.drawn.length = numOfScratchpadsPerGraphEntry + 2 := by
  have hstores : frontNetwork.StoresVault (bytes32 0) (numOfScratchpadsPerGraphEntry + 1)
      emptyWorld [] [] := Network.storesVault_nil (emptyWorld_unused_front _ (by decide))
  have hsize : (hashingClient frontHash).scratchpadStructSize + (data.length + 1)
      ≤ Scratchpad.maxSize := by
    have hmax : maxContentPerScratchpad ≤ Scratchpad.maxSize := Nat.sub_le _ _
    show 0 + (data.length + 1) ≤ Scratchpad.maxSize
    omega
  have hverify : ∀ number key, (hashingClient frontHash).scratchpadVerify
      (.new (hashingClient frontHash).crypto number key 7 data 0) = .ok () := fun number key =>
    scratchpadVerify_new (hashingClient_keysAgree frontHash) (hashingClient_encrypts frontHash)
      hsize number key 7 0
  obtain ⟨cost, w, hput, hdrawn⟩ := Network.run_vaultPut_ok
    (fun time => (hashingNetwork_funds frontHash time).pays) hstores hdata (le_of_lt hfits)
    Nat.one_pos hverify (hashingNetwork_puts frontHash (by decide))
    (hashingNetwork_puts frontHash (by decide)) (Nat.le_of_eq (Nat.zero_add _))
  refine ⟨w, ?_, hdrawn.trans (Nat.zero_add _)⟩
  rw [runSteps, Network.vaultPutStep_eq_some.mpr ⟨cost, hput⟩]
  rfl

/-- Three bytes, put into a vault and got back. -/
theorem vault_returns_last_put_iff_sample : ∃ w,
    runSteps (frontNetwork.vaultPutStep (bytes32 0)) emptyWorld
      [⟨[1, 2, 3], 7, .wallet ⟨.arbitrumOne⟩, 1⟩] = some w ∧
    frontNetwork.VaultReturns (bytes32 0) w [1, 2, 3] 7 := by
  obtain ⟨w, hrun, hdrawn⟩ := exists_front_put [1, 2, 3] (by decide) (by decide)
  refine ⟨w, hrun, ?_⟩
  refine (Network.vault_returns_last_put_iff (hashingClient_encrypts frontHash) []
    ⟨[1, 2, 3], 7, .wallet ⟨.arbitrumOne⟩, 1⟩ ?_ hrun).mpr (by decide)
  rw [hdrawn]
  exact emptyWorld_unused_front _ (by decide)

/-- One byte less than the maximum, put into a vault, is not got back: encrypted it is as long as
the maximum. -/
theorem vault_put_can_be_unreadable : ∃ w,
    runSteps (frontNetwork.vaultPutStep (bytes32 0)) emptyWorld
      [⟨List.replicate (maxContentPerScratchpad - 1) 0, 7, .wallet ⟨.arbitrumOne⟩, 1⟩] = some w ∧
    (hashingClient frontHash).crypto.Encrypts 1 ∧
    emptyWorld.Unused ((vaultHeadDerivationIndex ::
      frontNetwork.toDraw emptyWorld.drawn.length w.drawn.length).map
        ((hashingClient frontHash).indexName (bytes32 0))) ∧
    ¬ frontNetwork.VaultReturns (bytes32 0) w
      (List.replicate (maxContentPerScratchpad - 1) 0) 7 := by
  have hlength : (List.replicate (maxContentPerScratchpad - 1) (0 : UInt8)).length
      = maxContentPerScratchpad - 1 := length_replicate
  have hdata : List.replicate (maxContentPerScratchpad - 1) (0 : UInt8) ≠ [] :=
    ne_nil_of_length_pos (by rw [hlength]; decide)
  obtain ⟨w, hrun, hdrawn⟩ := exists_front_put (List.replicate (maxContentPerScratchpad - 1) 0) hdata
    (by rw [hlength]; decide)
  have hunused := emptyWorld_unused_front w.drawn.length (by rw [hdrawn]; decide)
  refine ⟨w, hrun, hashingClient_encrypts frontHash, hunused, ?_⟩
  obtain ⟨w', hstep, hdone⟩ := Option.bind_eq_some_iff.mp hrun
  cases hdone
  obtain ⟨cost, hput⟩ := Network.vaultPutStep_eq_some.mp hstep
  obtain ⟨-, blocks, pads, henough, hstores⟩ := Network.storesVault_of_vaultPut
    (Network.storesVault_nil hunused) hput le_rfl
  rw [Network.vaultReturns_filled_iff (hashingClient_encrypts frontHash) hdata henough hstores,
    hlength]
  decide

end Client

end Autonomi
