import TalerModel.Validation.Theorems.Disconnect
import TalerModel.Validation.Theorems.Reconnect

namespace Taler

open Ledger CCoinsViewCache ConnectContext

-- The ledger at each entry of a chain, and the hashes of the transactions up to it.
structure History where
  ledger : CBlockIndex → Ledger
  seen : CBlockIndex → Uint256 → Prop

-- What a node still has of a block that it has connected.
structure Archive where
  undo : CBlockIndex → Option CBlockUndo
  generated : CBlockIndex → Bool

variable [Crypto]

structure Accepted (ctx : ConnectContext) (archive : Archive) (ledger : Ledger)
    (pindex : CBlockIndex) (block : CBlock) (tip : CBlockIndex) (pcoinsTip : CCoinsView)
    (s s' : ConnectState) : Prop where
  onChain : OnChain pindex tip
  coherent : s.view.Coherent
  coins : s.view.getCoin = ledger.coins
  generated : ∀ p, s.stake.generated p → archive.generated p
  connected : (ctx.withTip tip pcoinsTip).connectBlock block pindex false s = .ok () s'

-- An entry whose block, which can be read and undone, led from the ledger of its parent to its own.
structure History.Extends (history : History) (ctx : ConnectContext)
    (txOf : Uint256 → CTransaction) (archive : Archive) (pindex : CBlockIndex) (block : CBlock) :
    Prop where
  accepted : ∃ tip pcoinsTip s s',
    Accepted ctx archive (history.ledger pindex.tail) pindex block tip pcoinsTip s s'
  disk : ctx.readBlockFromDisk pindex = some block
  undo : archive.undo pindex = some
    (spentCoins (nHeight pindex) block.vtx (history.ledger pindex.tail).coins).tail
  memo : block.Memo
  child : block.getHash ≠ ctx.params.hashGenesisBlock
  heights : ∀ out coin, (history.ledger pindex.tail).coins out = some coin →
    coin.nHeight < nHeight pindex
  grounded : Grounded (history.ledger pindex.tail).coins
  consistent : (history.ledger pindex.tail).Consistent ctx txOf (history.seen pindex.tail)
  new : NewBlock txOf (history.seen pindex.tail) block
  ledger : history.ledger pindex = (history.ledger pindex.tail).connectBlock ctx pindex block
  seen : history.seen pindex = seenWith (history.seen pindex.tail) block.vtx

variable {ctx : ConnectContext} {ledger : Ledger} {pindex tip : CBlockIndex} {block : CBlock}
  {archive : Archive} {pcoinsTip : CCoinsView} {history : History} {txOf : Uint256 → CTransaction}

lemma Ledger.AcceptsAll.withTip (h : AcceptsAll (ctx.withTip tip pcoinsTip) pindex vtx vtxundo ledger) :
    AcceptsAll ctx pindex vtx vtxundo ledger := by
  induction h
  case nil => exact .nil
  case cons head _ hi => exact .cons head hi

lemma Ledger.AcceptsBlock.withTip
    (h : AcceptsBlock (ctx.withTip tip pcoinsTip) pindex block vtxundo ledger) :
    AcceptsBlock ctx pindex block vtxundo ledger :=
  ⟨h.height, h.first, h.all.withTip⟩

namespace History.Extends

section

variable (h : history.Extends ctx txOf archive pindex block)
include h

lemma accepts :
    pindex.tail ≠ [] ∧ (history.ledger pindex.tail).AcceptsBlock ctx pindex block
      (spentCoins (nHeight pindex) block.vtx (history.ledger pindex.tail).coins).tail := by
  have ⟨tip, coins, s, s', ha⟩ := h.accepted
  have hchild : block.getHash ≠ (ctx.withTip tip coins).params.hashGenesisBlock := h.child
  have ⟨_, vtxundo, hr⟩ := connectBlock_refines h.memo ha.coherent hchild ha.connected ha.coins.symm
  have hacc := hr.accepts.withTip
  rw [← hacc.vtxundo_eq]
  exact ⟨hr.parent, hacc⟩

lemma checked : (checkBlock ctx.checkContext block pindex.tail true true).1 = .ok () := by
  have ⟨_, _, _, _, ha⟩ := h.accepted
  exact (connectBlock_ok ha.connected).1.checked

lemma consistent_self : (history.ledger pindex).Consistent ctx txOf (history.seen pindex) := by
  rw [h.ledger, h.seen]
  exact h.accepts.2.consistent h.consistent h.new

end

end History.Extends

def History.ExtendsAbove (history : History) (ctx : ConnectContext) (txOf : Uint256 → CTransaction)
    (archive : Archive) (base pindex : CBlockIndex) : Prop :=
  ∀ p, p <:+ pindex → base.length < p.length → ∃ block, history.Extends ctx txOf archive p block

namespace History.ExtendsAbove

variable {base : CBlockIndex}

section

variable (h : history.ExtendsAbove ctx txOf archive base pindex)
include h

lemma induct {motive : CBlockIndex → Prop} (hb : base <:+ pindex) (hbase : motive base)
    (hstep : ∀ p block, p <:+ pindex → base <:+ p.tail →
      history.Extends ctx txOf archive p block → motive p.tail → motive p) :
    motive pindex := by
  induction pindex
  case nil => exact List.suffix_nil.mp hb ▸ hbase
  case cons b pprev hi =>
  have hsuf {p : CBlockIndex} (hp : p <:+ pprev) := hp.trans (List.suffix_cons b pprev)
  cases List.suffix_cons_iff.mp hb
  case inl he => exact he ▸ hbase
  rename_i hb
  have hprev := hi (fun p hp => h p (hsuf hp)) hb fun p block hp => hstep p block (hsuf hp)
  have ⟨block, he⟩ := h _ (List.suffix_refl _) (Nat.lt_succ_of_le hb.length_le)
  exact hstep _ block (List.suffix_refl _) hb he hprev

lemma seen_mono (hb : base <:+ pindex) (hs : history.seen base txid) :
    history.seen pindex txid := by
  refine h.induct (motive := fun p => history.seen p txid) hb hs fun p block _ _ he hprev => ?_
  rw [he.seen]
  exact .inr hprev

lemma consistent_base (hb : base <:+ pindex)
    (hc : (history.ledger pindex).Consistent ctx txOf (history.seen pindex)) :
    (history.ledger base).Consistent ctx txOf (history.seen base) := by
  have hbase : pindex = base ∨ (history.ledger base).Consistent ctx txOf (history.seen base) := by
    refine h.induct (motive := fun p => p = base ∨
      (history.ledger base).Consistent ctx txOf (history.seen base)) hb (.inl rfl)
      fun p block _ _ he hprev => ?_
    cases hprev
    case inl hp => exact .inr (hp ▸ he.consistent)
    case inr hc => exact .inr hc
  cases hbase
  case inl hp => exact hp ▸ hc
  case inr hc => exact hc

lemma spent (hc : (history.ledger pindex).Consistent ctx txOf (history.seen pindex))
    (hp : p <:+ pindex) (hl : base.length < p.length)
    (he : history.Extends ctx txOf archive p block) (ht : tx ∈ block.vtx) (ho : out ∈ tx.prevouts) :
    (history.ledger pindex).coins out = none := by
  have hs : history.seen p tx.getHash := by
    rw [he.seen]
    exact .inl (List.mem_map_of_mem ht)
  have habove : history.ExtendsAbove ctx txOf archive p pindex :=
    fun q hq hlt => h q hq (Nat.lt_trans hl hlt)
  have hb := he.new.bound tx ht
  exact (hc.closed (habove.seen_mono hp hs) out (hb.symm ▸ ho)).2

end

end History.ExtendsAbove

-- The blocks of a chain above one of its entries have nothing for the index.
def UnlistedAbove (ctx : ConnectContext) (base pindex : CBlockIndex) : Prop :=
  ∀ p, p <:+ pindex → base.length < p.length → ∀ block, ctx.readBlockFromDisk p = some block →
    ∀ tx ∈ block.vtx, Unlisted p tx

omit [Crypto] in
lemma unlistedAbove_iff {base p : CBlockIndex} (hd : ctx.readBlockFromDisk p = some block)
    (hb : base.length < p.length) :
    UnlistedAbove ctx base p ↔ UnlistedAbove ctx base p.tail ∧ ∀ tx ∈ block.vtx, Unlisted p tx := by
  constructor
  · exact fun h => ⟨fun q hq => h q (hq.trans (List.tail_suffix p)),
      h p (List.suffix_refl p) hb block hd⟩
  intro h q hq hl block' hd' tx ht
  by_cases he : q = p
  · subst he
    rw [hd] at hd'
    cases hd'
    exact h.2 tx ht
  have hq : q <:+ p.tail := by
    cases p
    case nil => exact absurd (List.suffix_nil.mp hq) he
    case cons => exact (List.suffix_cons_iff.mp hq).resolve_left he
  exact h.1 q hq hl block' hd' tx ht

namespace History.ExtendsAbove

variable {base : CBlockIndex}

section

variable (h : history.ExtendsAbove ctx txOf archive base pindex) (hb : base <:+ pindex)
  (hf : ctx.fAddressIndex)
include h hb hf

lemma advances (ht : ctx.fTxIndex) :
    Advances (UnlistedAbove ctx base pindex) (history.ledger base).records
      (history.ledger pindex).records := by
  refine h.induct (motive := fun p => Advances (UnlistedAbove ctx base p)
    (history.ledger base).records (history.ledger p).records) hb (.refl fun p hp hl => ?_)
    fun p block _ hbase he hprev => ?_
  · exact absurd hp.length_le (Nat.not_le_of_lt hl)
  have ⟨hpar, hacc⟩ := he.accepts
  have hl : base.length < p.length := by
    have hle := hbase.length_le
    have hpos := List.length_pos_iff.mpr hpar
    rw [List.length_tail] at hle hpos
    omega
  rw [unlistedAbove_iff he.disk hl, he.ledger]
  exact hprev.trans (hacc.all.advances hf ht hacc.height he.consistent he.new.bound
    (hacc.unseen he.consistent he.new))

lemma follows (ht : ctx.fTxIndex = false)
    (hc : (history.ledger base).Consistent ctx txOf (history.seen base)) :
    (history.ledger base).Follows (history.ledger pindex) := by
  refine (h.induct (motive := fun p => (history.ledger base).Follows (history.ledger p) ∧
    ∀ out, (history.ledger base).records out ≠ none → history.seen p out.hash) hb
    ⟨.refl hf hc, fun _ => hc.filed⟩ fun p block _ _ he hprev => ?_).1
  rw [he.ledger, he.seen]
  have hacc := he.accepts.2
  exact ⟨hacc.all.follows hf ht hacc.height hprev.1 he.consistent hprev.2 he.new.bound
    (hacc.unseen he.consistent he.new), fun out hr => .inr (hprev.2 out hr)⟩

lemma records_eq_iff (hc : (history.ledger pindex).Consistent ctx txOf (history.seen pindex)) :
    (history.ledger base).records = (history.ledger pindex).records ↔
      if ctx.fTxIndex then UnlistedAbove ctx base pindex
      else (history.ledger base).coins = (history.ledger pindex).coins := by
  rw [eq_comm]
  split
  case isTrue ht => exact (h.advances hb hf ht).eq_iff
  case isFalse ht =>
  have hc := h.consistent_base hb hc
  rw [(h.follows hb hf (Bool.eq_false_iff.mpr ht) hc).records_eq_iff hf hc, eq_comm]

end

end History.ExtendsAbove

end Taler
