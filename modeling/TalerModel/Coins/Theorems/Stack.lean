import TalerModel.Coins.Stack
import TalerModel.Coins.Theorems.View

namespace Taler

open Function List

namespace CCoinsViewCache

variable {view : CCoinsViewCache} {o : COutPoint} {e : CCoinsCacheEntry}

lemma Coherent.batchWriteEntry_updates (hv : view.Coherent) (hf : e.fresh → view.getCoin o = none) :
    ∃ view', view.batchWriteEntry o e = .ok view' ∧
      Updates view view' (if e.dirty then update view.getCoin o e.unspent
        else view.getCoin) := by
  cases hd : e.dirty
  case false => exact ⟨view, by simp [batchWriteEntry, hd], .refl hv⟩
  simp only [batchWriteEntry, hd, Bool.not_true, Bool.false_eq_true, if_false, if_true]
  cases hl : view.cacheCoins.lookup o
  case none =>
    by_cases hs : e.fresh && e.coin.isSpent
    · rw [Bool.and_eq_true] at hs
      have hu : update view.getCoin o e.unspent = view.getCoin := by
        rw [CCoinsCacheEntry.unspent_eq_none.mpr hs.2, ← hf hs.1, update_eq_self]
      refine ⟨view, by simp [hs], ?_⟩
      rw [hu]
      exact .refl hv
    rw [if_neg hs]
    exact ⟨_, rfl, hv.setEntry_updates (fun he => shown_of_getCoin (hf he) hl) nofun⟩
  case some us =>
  have hno : (e.fresh && !us.coin.isSpent) = false := by
    cases hef : e.fresh
    case false => rfl
    have hs := hf hef
    rw [getCoin_cached hl, CCoinsCacheEntry.unspent_eq_none] at hs
    simp [hs]
  simp only [hno, Bool.false_eq_true, if_false]
  by_cases hs : us.fresh && e.coin.isSpent
  · rw [if_pos hs]
    rw [Bool.and_eq_true] at hs
    refine ⟨_, rfl, ?_⟩
    rw [CCoinsCacheEntry.unspent_eq_none.mpr hs.2]
    exact hv.eraseEntry_updates (hv.fresh hl hs.1)
  rw [if_neg hs]
  exact ⟨_, rfl, hv.setEntry_updates (fun he => hv.fresh hl he) nofun⟩

def overlaid (coins : COutPoint → Option Coin) :
    List (COutPoint × CCoinsCacheEntry) → COutPoint → Option Coin
  | [] => coins
  | (o, e) :: mapCoins =>
    overlaid (if e.dirty then update coins o e.unspent else coins) mapCoins

lemma overlaid_not_mem (h : o ∉ mapCoins.map Prod.fst) : overlaid coins mapCoins o = coins o := by
  induction mapCoins generalizing coins
  case nil => rfl
  case cons p mapCoins hi =>
  simp only [map_cons, mem_cons, not_or] at h
  rw [overlaid, hi h.2]
  split
  · exact update_of_ne h.1 ..
  · rfl

lemma overlaid_mem (hn : (mapCoins.map Prod.fst).Nodup) (h : (o, e) ∈ mapCoins) :
    overlaid coins mapCoins o = if e.dirty then e.unspent else coins o := by
  induction mapCoins generalizing coins
  case nil => simp at h
  case cons p mapCoins hi =>
  have ⟨hp, hn⟩ := nodup_cons.mp hn
  rw [overlaid]
  cases mem_cons.mp h
  case inl h =>
    subst h
    rw [overlaid_not_mem hp]
    split <;> simp
  rename_i h
  have hne : o ≠ p.1 := fun he => hp (he ▸ mem_map_of_mem h)
  rw [hi hn h]
  split
  · rfl
  split
  · exact update_of_ne hne ..
  · rfl

lemma Coherent.batchWriteEntries_updates (hv : view.Coherent)
    (hn : (mapCoins.map Prod.fst).Nodup)
    (hf : ∀ p ∈ mapCoins, p.2.fresh → view.getCoin p.1 = none) :
    ∃ view', batchWriteEntries mapCoins view = .ok view' ∧
      Updates view view' (overlaid view.getCoin mapCoins) := by
  induction mapCoins generalizing view
  case nil => exact ⟨view, rfl, .refl hv⟩
  case cons p mapCoins hi =>
  have ⟨hp, hn⟩ := nodup_cons.mp hn
  have ⟨hfp, hf⟩ := forall_mem_cons.mp hf
  have ⟨view1, h1, hu1⟩ := hv.batchWriteEntry_updates hfp
  have hf1 : ∀ q ∈ mapCoins, q.2.fresh → view1.getCoin q.1 = none := by
    intro q hq he
    have hne : q.1 ≠ p.1 := fun heq => hp (heq ▸ mem_map_of_mem hq)
    rw [hu1.coins]
    split
    · rw [update_of_ne hne]; exact hf q hq he
    · exact hf q hq he
  have ⟨view', h', hu'⟩ := hi hu1.coherent hn hf1
  rw [hu1.coins] at hu'
  refine ⟨view', ?_, hu1.trans hu'⟩
  rw [batchWriteEntries, h1]
  exact h'

lemma Coherent.uncache (hv : view.Coherent) :
    (view.uncache o).Coherent ∧ (view.uncache o).base = view.base ∧
    (view.uncache o).getCoin = view.getCoin := by
  unfold CCoinsViewCache.uncache
  split
  case h_1 => exact ⟨hv, rfl, rfl⟩
  rename_i e hl
  split
  · exact ⟨hv, rfl, rfl⟩
  rename_i hc
  have hlookup {o' : COutPoint} {e' : CCoinsCacheEntry}
      (h : (view.eraseEntry o).cacheCoins.lookup o' = some e') :
      view.cacheCoins.lookup o' = some e' := by
    rw [lookup_eraseEntry] at h
    split at h
    · nomatch h
    · exact h
  refine ⟨⟨fun h => hv.fresh (hlookup h), fun h => hv.clean (hlookup h)⟩, rfl, ?_⟩
  funext o'
  by_cases ho : o' = o
  · have hd : e.dirty = false := by
      cases hd : e.dirty
      case false => rfl
      case true => simp [hd] at hc
    rw [ho, getCoin_cached hl, hv.clean hl hd]
    exact getCoin_uncached (by simp [lookup_eraseEntry])
  · exact getCoin_congr rfl (by simp [lookup_eraseEntry, ho])

end CCoinsViewCache

namespace CoinsStack

open CCoinsViewCache

def coins (stack : CoinsStack) : COutPoint → Option Coin :=
  (viewOf stack.base stack.layers).unspent

-- The flags of every layer hold what they promise about the layers below.
def Coherent (base : CCoinsView) : List CoinsLayer → Prop
  | [] => True
  | layer :: below => (layer.onto (viewOf base below)).Coherent ∧ Coherent base below

variable {base base' : CCoinsView} {layer : CoinsLayer} {layers below : List CoinsLayer}
  {o : COutPoint} {view : CCoinsViewCache} {c : CoinsCall}

lemma toView_unspent (view : CCoinsViewCache) : view.toView.unspent = view.getCoin := by
  funext o
  rw [CCoinsView.unspent, toView]
  dsimp only
  rw [getCoin, Option.filter_filter]
  simp

lemma viewOf_cons_unspent : (viewOf base (layer :: below)).unspent =
    (layer.onto (viewOf base below)).getCoin :=
  toView_unspent _

-- A cache only depends on what is unspent below it.

lemma getCoin_over_congr (h : base'.unspent = base.unspent) :
    (layer.onto base').getCoin = (layer.onto base).getCoin := by
  funext o
  cases hl : layer.cacheCoins.lookup o
  case none =>
    rw [getCoin_uncached hl, getCoin_uncached hl]
    exact congrFun h o
  case some e => rw [getCoin_cached hl, getCoin_cached hl]

lemma coherent_over_congr (h : base'.unspent = base.unspent) (hc : (layer.onto base).Coherent) :
    (layer.onto base').Coherent where
  fresh hl he := (congrFun h _).trans (hc.fresh hl he)
  clean hl he := (hc.clean hl he).trans (congrFun h _).symm

lemma fetched_spec (hc : Coherent base layers) :
    Coherent base (fetched base o layers) ∧
    (viewOf base (fetched base o layers)).unspent = (viewOf base layers).unspent ∧
    (fetched base o layers).length = layers.length := by
  induction layers
  case nil => exact ⟨trivial, rfl, rfl⟩
  case cons layer below hi =>
  have ⟨hl, hb⟩ := hc
  have ⟨hb', hu', hlen⟩ := hi hb
  rw [fetched]
  split
  · exact ⟨hc, rfl, rfl⟩
  rename_i hn
  have hn : layer.cacheCoins.lookup o = none := by simpa using hn
  split
  case h_1 =>
    refine ⟨⟨coherent_over_congr hu' hl, hb'⟩, ?_, by simp [hlen]⟩
    rw [viewOf_cons_unspent, viewOf_cons_unspent, getCoin_over_congr hu']
  rename_i e he
  have hup := hl.fetch_updates hn he
  refine ⟨⟨coherent_over_congr hu' hup.coherent, hb'⟩, ?_, by simp [hlen]⟩
  rw [viewOf_cons_unspent, viewOf_cons_unspent, getCoin_over_congr hu']
  exact hup.coins

lemma Visits.mem_entries (h : Visits order layer) :
    (o, e) ∈ CoinsLayer.entries layer order ↔ layer.cacheCoins.lookup o = some e := by
  simp only [CoinsLayer.entries, mem_filterMap, Option.map_eq_some_iff, Prod.mk.injEq]
  constructor
  · intro ⟨_, _, _, hl, ho, he⟩
    exact ho ▸ he ▸ hl
  intro hl
  exact ⟨o, (h.all o).mpr (Finmap.mem_of_lookup_eq_some hl), e, hl, rfl, rfl⟩

lemma Visits.entries_nodup (h : Visits order layer) :
    ((CoinsLayer.entries layer order).map Prod.fst).Nodup := by
  rw [CoinsLayer.entries, map_filterMap]
  refine h.nodup.filterMap fun o o' k hk hk' => ?_
  simp only [Option.map_map, Option.mem_def, Option.map_eq_some_iff, comp] at hk hk'
  have ⟨_, _, he⟩ := hk
  have ⟨_, _, he'⟩ := hk'
  exact he.trans he'.symm

lemma Visits.overlaid_entries (h : Visits order layer) (hc : (layer.onto base).Coherent) :
    overlaid base.unspent (CoinsLayer.entries layer order) = (layer.onto base).getCoin := by
  funext o
  cases hl : layer.cacheCoins.lookup o
  case none =>
    have hn : o ∉ (CoinsLayer.entries layer order).map Prod.fst := by
      intro hm
      have ⟨⟨_, e⟩, hm, he⟩ := mem_map.mp hm
      have hs := h.mem_entries.mp hm
      dsimp only at he
      rw [he, hl] at hs
      nomatch hs
    rw [overlaid_not_mem hn, getCoin_uncached hl]
    rfl
  case some e =>
  rw [overlaid_mem h.entries_nodup (h.mem_entries.mpr hl), getCoin_cached hl]
  split
  · rfl
  case isFalse hd => exact (hc.clean hl (Bool.eq_false_iff.mpr hd)).symm

lemma batchWrite_unspent (mapCoins hash) :
    (base.batchWrite mapCoins hash).unspent = overlaid base.unspent mapCoins := by
  have hgen getCoin :
      (fun o => (CCoinsView.written getCoin mapCoins o).filter (!·.isSpent)) =
        overlaid (fun o => (getCoin o).filter (!·.isSpent)) mapCoins := by
    induction mapCoins generalizing getCoin
    case nil => rfl
    case cons p mapCoins hi =>
    rw [CCoinsView.written, overlaid, hi]
    congr 1
    funext o
    unfold CCoinsView.writtenEntry
    cases hd : p.2.dirty
    case false => simp
    by_cases ho : o = p.1
    · rw [ho]
      cases hs : p.2.coin.isSpent <;> simp [CCoinsCacheEntry.unspent, hs, Option.filter]
    · simp [update_of_ne ho]
  exact hgen base.getCoin

lemma over_empty_coherent (hash) : ({ hashBlock := hash } : CoinsLayer).onto base |>.Coherent where
  fresh h := by simp [CoinsLayer.onto] at h
  clean h := by simp [CoinsLayer.onto] at h

lemma over_empty_getCoin (h : layer.cacheCoins = ∅) : (layer.onto base).getCoin = base.unspent := by
  funext o
  exact getCoin_uncached (by simp [CoinsLayer.onto, h])

lemma batchWrite_updates (hlow : lower.Coherent) (hl : (layer.onto lower.toView).Coherent)
    (hv : Visits order layer) (hash : Uint256) :
    ∃ view, lower.batchWrite (CoinsLayer.entries layer order) hash = .ok (view.setBestBlock hash) ∧
      Updates lower view (layer.onto lower.toView).getCoin := by
  have hover := hv.overlaid_entries hl
  rw [toView_unspent] at hover
  have hf : ∀ p ∈ CoinsLayer.entries layer order, p.2.fresh → lower.getCoin p.1 = none := by
    intro p hp he
    rw [← toView_unspent]
    exact hl.fresh (hv.mem_entries.mp hp) he
  have ⟨view, hw, hu⟩ := hlow.batchWriteEntries_updates hv.entries_nodup hf
  refine ⟨view, ?_, hover ▸ hu⟩
  rw [batchWrite, hw]
  rfl

lemma flush_spec (hc : Coherent base (layer :: below)) (hv : Visits order layer) :
    ∃ stack, flush base layer order below = .ok stack ∧
      Coherent stack.base stack.layers ∧ stack.layers.length = below.length + 1 ∧
      stack.coins = (layer.onto (viewOf base below)).getCoin ∧
      ∃ lower, stack.layers = { layer with cacheCoins := ∅ } :: lower := by
  have ⟨hl, hb⟩ := hc
  cases below
  case nil =>
    refine ⟨_, rfl, ⟨over_empty_coherent _, trivial⟩, rfl, ?_, [], rfl⟩
    rw [coins, viewOf_cons_unspent, over_empty_getCoin rfl, viewOf, batchWrite_unspent]
    exact hv.overlaid_entries hl
  case cons lower below =>
  have ⟨hlow, hb⟩ := hb
  have ⟨view, hw, hu⟩ := batchWrite_updates hlow hl hv layer.hashBlock
  have hbase : view.base = viewOf base below := hu.base
  have hflush : flush base layer order (lower :: below) = .ok
      { base := base
        layers := { layer with cacheCoins := ∅ } ::
          (view.setBestBlock layer.hashBlock).layer :: below } := by
    rw [flush, hw]
    rfl
  refine ⟨_, hflush, ⟨over_empty_coherent _, ?_, hb⟩, rfl, ?_, _, rfl⟩
  · exact hbase ▸ hu.coherent.setBestBlock _
  rw [coins, viewOf_cons_unspent, over_empty_getCoin rfl, viewOf_cons_unspent]
  rw [viewOf, ← hu.coins, ← hbase]
  rfl

def flatCall (coins : COutPoint → Option Coin) : CoinsCall → CoinsAnswer × (COutPoint → Option Coin)
  | .addCoin o coin possibleOverwrite =>
    if coin.isSpent then (.fault .assertion, coins) else
    if coin.out.scriptPubKey.isUnspendable then (.done, coins) else
    if !possibleOverwrite && (coins o).isSome then (.fault .exception, coins) else
    (.done, update coins o (some coin))
  | .spendCoin o => (.coin (coins o), update coins o none)
  | .getCoin o => (.coin (coins o), coins)
  | .haveCoin o => (.have (coins o).isSome, coins)
  | .accessCoin o => (.coin (coins o), coins)
  | .uncache _ => (.done, coins)
  | .flush _ => (.done, coins)
  | .setBestBlock _ => (.done, coins)

-- A possibly unspent outpoint is announced as an overwrite, and a flush visits what there is.
def Fits (base : CCoinsView) (layer : CoinsLayer) (below : List CoinsLayer) : CoinsCall → Prop
  | .addCoin o _ possibleOverwrite =>
    possibleOverwrite = false → (layer.onto (viewOf base below)).Shown o
  | .flush order => Visits order layer
  | _ => True

-- Calls that leave what a layer shows as it is. Others are for layers with nothing in use above them.
def Harmless : CoinsCall → Prop
  | .uncache _ => True
  | .flush _ => True
  | .setBestBlock _ => True
  | _ => False

structure Called (c : CoinsCall) (coins : COutPoint → Option Coin) (length : Nat)
    (r : CoinsAnswer × CoinsStack) : Prop where
  coherent : Coherent r.2.base r.2.layers
  length : r.2.layers.length = length
  answer : r.1 = (flatCall coins c).1
  coins : r.2.coins = (flatCall coins c).2

lemma normal_accessCoin (view : CCoinsViewCache) :
    (view.accessCoin o).normal = view.getCoin o := by
  rw [accessCoin, getCoin, Coin.normal]
  cases view.fetchCoin o
  case none => rfl
  case some e => cases hs : e.coin.isSpent <;> simp [hs, Option.filter]

lemma reading_called (hc : Coherent base (layer :: below))
    (hflat : flatCall (layer.onto (viewOf base below)).getCoin c =
      (answer, (layer.onto (viewOf base below)).getCoin)) :
    Called c (layer.onto (viewOf base below)).getCoin (below.length + 1)
      (answer, { base := base, layers := fetched base o (layer :: below) }) := by
  have ⟨hc', hu, hlen⟩ := @fetched_spec base (layer :: below) o hc
  refine ⟨hc', hlen, by rw [hflat], ?_⟩
  rw [hflat, coins, hu, viewOf_cons_unspent]

lemma replaced_called (hb : Coherent base below')
    (hu : (viewOf base below').unspent = (viewOf base below).unspent)
    (hlen : below'.length = below.length) (hv : view.Coherent)
    (hbase : view.base = viewOf base below) (hflat : flatCall m c = (answer, view.getCoin)) :
    Called c m (below.length + 1) (answer, { base := base, layers := view.layer :: below' }) := by
  have hself : view.layer.onto (viewOf base below) = view := by rw [← hbase]; rfl
  refine ⟨⟨coherent_over_congr hu (hself.symm ▸ hv), hb⟩, by simp [hlen], by rw [hflat], ?_⟩
  rw [hflat, CoinsStack.coins, viewOf_cons_unspent, getCoin_over_congr hu, hself]

lemma fetched_tail_spec (hb : Coherent base below) :
    Coherent base (fetched base o (layer :: below)).tail ∧
    (viewOf base (fetched base o (layer :: below)).tail).unspent = (viewOf base below).unspent ∧
    (fetched base o (layer :: below)).tail.length = below.length := by
  rw [fetched]
  split
  · exact ⟨hb, rfl, rfl⟩
  · split <;> exact fetched_spec hb

lemma normal_spendCoin (h : view.spendCoin o = some (coin, view')) :
    coin.normal = view.getCoin o := by
  have ⟨e, he, hm⟩ := Option.map_eq_some_iff.mp h
  injection hm with hm _
  rw [getCoin, he, ← hm, Coin.normal]
  cases hs : e.coin.isSpent <;> simp [hs, Option.filter]

lemma emplaced_isSpent (hs : view.Shown o) :
    (!(view.emplaced o).coin.isSpent) = (view.getCoin o).isSome := by
  cases hl : view.cacheCoins.lookup o
  case none =>
    rw [getCoin_uncached hl, hs hl, emplaced, hl]
    rfl
  case some e =>
  rw [getCoin_cached hl, emplaced, hl, Option.getD_some]
  cases hc : e.coin.isSpent <;> simp [CCoinsCacheEntry.unspent, hc, Option.filter]

lemma addCoin_called (hc : Coherent base (layer :: below))
    (hf : Fits base layer below (.addCoin o coin overwrite)) :
    Called (.addCoin o coin overwrite) (layer.onto (viewOf base below)).getCoin (below.length + 1)
      (call base layer below (.addCoin o coin overwrite)) := by
  have ⟨hl, hb⟩ := hc
  have hsame {answer : CoinsAnswer}
      (h : flatCall (layer.onto (viewOf base below)).getCoin (.addCoin o coin overwrite) =
        (answer, (layer.onto (viewOf base below)).getCoin)) :
      Called (.addCoin o coin overwrite) (layer.onto (viewOf base below)).getCoin (below.length + 1)
        (answer, { base := base, layers := (layer.onto (viewOf base below)).layer :: below }) :=
    replaced_called hb rfl rfl hl rfl h
  have hthrow : (!overwrite && !((layer.onto (viewOf base below)).emplaced o).coin.isSpent) =
      (!overwrite && ((layer.onto (viewOf base below)).getCoin o).isSome) := by
    cases overwrite
    case true => rfl
    case false => rw [emplaced_isSpent (hf rfl)]
  by_cases hs : coin.isSpent
  · have ha : (layer.onto (viewOf base below)).addCoin o coin overwrite = Check.fault .assertion := by
      simp [addCoin, hs]
    simp only [call, ha]
    exact hsame (by simp [flatCall, hs])
  by_cases hu : coin.out.scriptPubKey.isUnspendable
  · have ha : (layer.onto (viewOf base below)).addCoin o coin overwrite =
        .ok (layer.onto (viewOf base below)) := by
      simp [addCoin, hs, hu]
    simp only [call, ha]
    exact hsame (by simp [flatCall, hs, hu])
  by_cases ht : !overwrite && ((layer.onto (viewOf base below)).getCoin o).isSome
  · have ha : (layer.onto (viewOf base below)).addCoin o coin overwrite =
        Check.fault .exception := by
      rw [addCoin, if_neg hs, if_neg hu, if_pos (hthrow.trans ht)]
    simp only [call, ha]
    exact hsame (by rw [flatCall, if_neg hs, if_neg hu, if_pos ht])
  have ha : (layer.onto (viewOf base below)).addCoin o coin overwrite = .ok
      ((layer.onto (viewOf base below)).setEntry o
        (addedEntry ((layer.onto (viewOf base below)).emplaced o) coin overwrite)) := by
    rw [addCoin, if_neg hs, if_neg hu, if_neg (hthrow ▸ ht)]
  have hup := hl.addCoin_updates ha (Bool.eq_false_iff.mpr hu) hf
  simp only [call, ha]
  exact replaced_called hb rfl rfl hup.coherent hup.base
    (by rw [flatCall, if_neg hs, if_neg hu, if_neg ht, hup.coins])

lemma call_called (hc : Coherent base (layer :: below)) (hf : Fits base layer below c) :
    Called c (layer.onto (viewOf base below)).getCoin (below.length + 1)
      (call base layer below c) := by
  have hl := hc.1
  have hb := hc.2
  cases c
  case getCoin o => exact reading_called hc rfl
  case haveCoin o => exact reading_called hc rfl
  case accessCoin o => exact reading_called hc (by rw [normal_accessCoin]; rfl)
  case uncache o =>
    obtain ⟨hv, hbase, hcoins⟩ := @Coherent.uncache _ o hl
    exact replaced_called hb rfl rfl hv hbase (by rw [hcoins]; rfl)
  case setBestBlock hash => exact replaced_called hb rfl rfl (hl.setBestBlock hash) rfl rfl
  case flush order =>
    obtain ⟨stack, hs, hcs, hlen, hcoins, _⟩ := flush_spec hc hf
    simp only [call, hs]
    exact ⟨hcs, hlen, rfl, hcoins⟩
  case spendCoin o =>
    cases hs : (layer.onto (viewOf base below)).spendCoin o
    case none =>
      have hn := getCoin_of_spendCoin_none hs
      simp only [call, hs]
      exact reading_called hc (by rw [flatCall, hn, ← hn, update_eq_self])
    have hup := hl.spendCoin_updates hs
    obtain ⟨ht, htu, htl⟩ := @fetched_tail_spec base layer below o hb
    simp only [call, hs]
    exact replaced_called ht htu htl hup.coherent hup.base
      (by rw [flatCall, hup.coins, normal_spendCoin hs])
  case addCoin o coin overwrite => exact addCoin_called hc hf

-- A call fits its layer and, unless it is harmless, nothing is cached in the layers above.
def InOrder (base : CCoinsView) (c : CoinsCall) : Nat → List CoinsLayer → Prop
  | _, [] => False
  | 0, layer :: below => Fits base layer below c
  | i + 1, top :: below => (Harmless c ∨ top.cacheCoins = ∅) ∧ InOrder base c i below

lemma flatCall_harmless (h : Harmless c) (m) : flatCall m c = (.done, m) := by
  cases c <;> first | rfl | nomatch h

lemma empty_of_cacheCoins (h : layer.cacheCoins = ∅) :
    layer = { hashBlock := layer.hashBlock } := by
  cases layer
  rw [CoinsLayer.mk.injEq]
  exact ⟨h, rfl⟩

lemma step_called (hc : Coherent base layers) (hf : InOrder base c i layers) :
    Called c (viewOf base layers).unspent layers.length (step base c i layers) := by
  induction layers generalizing i
  case nil => cases i <;> exact hf.elim
  case cons top below hi =>
  cases i
  case zero =>
    rw [viewOf_cons_unspent]
    exact call_called hc hf
  case succ i =>
  have ⟨htop, hf⟩ := hf
  have h := hi hc.2 hf
  cases htop
  case inl hh =>
    have hu := h.coins
    rw [flatCall_harmless hh] at hu
    refine ⟨⟨coherent_over_congr hu hc.1, h.coherent⟩, congrArg (· + 1) h.length,
      h.answer.trans ?_, ?_⟩
    · rw [flatCall_harmless hh, flatCall_harmless hh]
    rw [flatCall_harmless hh, viewOf_cons_unspent]
    exact viewOf_cons_unspent.trans (getCoin_over_congr hu)
  case inr he =>
  have hsame : (viewOf base (top :: below)).unspent = (viewOf base below).unspent :=
    viewOf_cons_unspent.trans (over_empty_getCoin he)
  rw [hsame]
  refine ⟨⟨?_, h.coherent⟩, congrArg (· + 1) h.length, h.answer, ?_⟩
  · rw [empty_of_cacheCoins he]
    exact over_empty_coherent _
  · exact (viewOf_cons_unspent.trans (over_empty_getCoin he)).trans h.coins

def Disciplined (stack : CoinsStack) : List (Nat × CoinsCall) → Prop
  | [] => True
  | (i, c) :: calls =>
    InOrder stack.base c i stack.layers ∧ Disciplined (step stack.base c i stack.layers).2 calls

def flatRun (m : COutPoint → Option Coin) :
    List CoinsCall → List CoinsAnswer × (COutPoint → Option Coin)
  | [] => ([], m)
  | c :: calls =>
    let (answer, m) := flatCall m c
    let (answers, m) := flatRun m calls
    (answer :: answers, m)

lemma run_called (hc : Coherent stack.base stack.layers) (hd : Disciplined stack calls) :
    Coherent (run stack calls).2.base (run stack calls).2.layers ∧
    (run stack calls).2.layers.length = stack.layers.length ∧
    ((run stack calls).1, (run stack calls).2.coins) =
      flatRun stack.coins (calls.map Prod.snd) := by
  induction calls generalizing stack
  case nil => exact ⟨hc, rfl, rfl⟩
  case cons call calls hi =>
  have h := step_called hc hd.1
  have ⟨hc', hlen, hr⟩ := hi h.coherent hd.2
  refine ⟨hc', hlen.trans h.length, ?_⟩
  have ⟨ha, hm⟩ := Prod.mk.inj hr
  rw [h.coins] at ha hm
  exact Prod.ext (congrArg₂ cons h.answer ha) hm

def flushAll : List (List COutPoint) → Nat → List (Nat × CoinsCall)
  | [], _ => []
  | order :: orders, i => (i, .flush order) :: flushAll orders (i + 1)

lemma Coherent.append_right (h : Coherent base (upper ++ layers)) : Coherent base layers := by
  induction upper
  case nil => exact h
  case cons top upper hi => exact hi h.2

-- A flush of a layer that has others above it.

lemma inOrder_flush_append :
    InOrder base (.flush order) upper.length (upper ++ layer :: below) ↔ Visits order layer := by
  induction upper
  case nil => rfl
  case cons top upper hi => exact ⟨fun h => hi.mp h.2, fun h => ⟨.inl trivial, hi.mpr h⟩⟩

lemma step_append :
    step base c upper.length (upper ++ layer :: below) =
      ((call base layer below c).1,
        { base := (call base layer below c).2.base
          layers := upper ++ (call base layer below c).2.layers }) := by
  induction upper
  case nil => rfl
  case cons top upper hi =>
  rw [length_cons, cons_append, step, hi]
  rfl

lemma step_flush_append (hc : Coherent base (upper ++ layer :: below)) (hv : Visits order layer) :
    ∃ base' lower, lower.length = below.length ∧
      (step base (.flush order) upper.length (upper ++ layer :: below)).2 =
        { base := base', layers := (upper ++ [{ layer with cacheCoins := ∅ }]) ++ lower } := by
  have ⟨stack, hs, _, hlen, _, lower, hl⟩ := flush_spec hc.append_right hv
  refine ⟨stack.base, lower, by simpa [hl] using hlen, ?_⟩
  simp [step_append, call, hs, hl]

lemma exists_flushAll (hc : Coherent base (upper ++ layers)) :
    ∃ orders, orders.length = layers.length ∧
      Disciplined { base := base, layers := upper ++ layers } (flushAll orders upper.length) := by
  induction hn : layers.length generalizing base upper layers
  case zero => exact ⟨[], rfl, trivial⟩
  case succ n hi =>
  cases layers
  case nil => nomatch hn
  case cons layer below =>
  have hv : Visits layer.cacheCoins.keys.toList layer :=
    ⟨Finset.nodup_toList _, fun o => by rw [Finset.mem_toList, Finmap.mem_keys]⟩
  have hf : InOrder base _ upper.length (upper ++ layer :: below) := inOrder_flush_append.mpr hv
  have ⟨base', lower, hlen, hs⟩ := step_flush_append hc hv
  have h := (step_called hc hf).coherent
  rw [hs] at h
  have ⟨orders, ho, hd⟩ := hi h (by simpa [hlen] using hn)
  refine ⟨_ :: orders, congrArg (· + 1) ho, hf, ?_⟩
  rw [hs]
  rwa [length_append] at hd

lemma flushAll_empties (hc : Coherent base (upper ++ layers))
    (hu : ∀ layer ∈ upper, layer.cacheCoins = ∅) (hn : orders.length = layers.length)
    (hd : Disciplined { base := base, layers := upper ++ layers } (flushAll orders upper.length)) :
    ∀ layer ∈ (run { base := base, layers := upper ++ layers }
      (flushAll orders upper.length)).2.layers, layer.cacheCoins = ∅ := by
  induction orders generalizing base upper layers
  case nil =>
    cases layers
    case nil => simpa [flushAll, run] using hu
    case cons => nomatch hn
  case cons order orders hi =>
  cases layers
  case nil => nomatch hn
  case cons layer below =>
  have hv := inOrder_flush_append.mp hd.1
  have ⟨base', lower, hlen, hs⟩ := step_flush_append hc hv
  have h := (step_called hc hd.1).coherent
  have hd := hd.2
  rw [hs] at h hd
  have hu' : ∀ l ∈ upper ++ [{ layer with cacheCoins := ∅ }], l.cacheCoins = ∅ := by
    intro l hl
    cases mem_append.mp hl
    case inl hl => exact hu l hl
    case inr hl => rw [mem_singleton.mp hl]
  have hlast : upper.length + 1 = (upper ++ [{ layer with cacheCoins := ∅ }]).length := by simp
  rw [hlast] at hd
  rw [flushAll, run, hlast]
  dsimp only
  rw [hs]
  exact hi h hu' ((Nat.succ.inj hn).trans hlen.symm) hd

lemma viewOf_empty (h : ∀ layer ∈ layers, layer.cacheCoins = ∅) :
    (viewOf base layers).unspent = base.unspent := by
  induction layers
  case nil => rfl
  case cons layer below hi =>
  have ⟨hl, hb⟩ := forall_mem_cons.mp h
  rw [viewOf_cons_unspent, over_empty_getCoin hl, hi hb]

lemma flatRun_flushAll (m orders i) :
    flatRun m ((flushAll orders i).map Prod.snd) = (replicate orders.length .done, m) := by
  induction orders generalizing i
  case nil => rfl
  case cons order orders hi =>
  rw [flushAll, map_cons, flatRun, flatCall]
  dsimp only
  rw [hi]
  rfl

lemma flushAll_base (hc : Coherent stack.base stack.layers)
    (hn : orders.length = stack.layers.length) (hd : Disciplined stack (flushAll orders 0)) :
    (run stack (flushAll orders 0)).1 = replicate orders.length .done ∧
    (run stack (flushAll orders 0)).2.base.unspent = stack.coins := by
  have ⟨_, _, hr⟩ := run_called hc hd
  rw [flatRun_flushAll] at hr
  have ⟨ha, hm⟩ := Prod.mk.inj hr
  have he := @flushAll_empties _ _ [] _ hc nofun hn hd
  exact ⟨ha, (viewOf_empty he).symm.trans hm⟩

def new (base : CCoinsView) (n : Nat) : CoinsStack where
  base := base
  layers := replicate n {}

lemma new_coherent (base n) : Coherent base (new base n).layers := by
  induction n
  case zero => trivial
  case succ n hi => exact ⟨over_empty_coherent _, hi⟩

lemma new_coins (base n) : (new base n).coins = base.unspent :=
  viewOf_empty fun _ h => eq_of_mem_replicate h ▸ rfl

-- Stacked caches answer like a single map, and can be flushed from top to bottom into the view.
theorem run_eq_flatRun (base : CCoinsView) (n : Nat) (calls : List (Nat × CoinsCall))
    (hd : Disciplined (new base n) calls) :
    (run (new base n) calls).1 = (flatRun base.unspent (calls.map Prod.snd)).1 ∧
    (∃ orders, orders.length = n ∧ Disciplined (run (new base n) calls).2 (flushAll orders 0)) ∧
    ∀ orders, orders.length = n → Disciplined (run (new base n) calls).2 (flushAll orders 0) →
      (run (run (new base n) calls).2 (flushAll orders 0)).1 = replicate n .done ∧
      (run (run (new base n) calls).2 (flushAll orders 0)).2.base.unspent =
        (flatRun base.unspent (calls.map Prod.snd)).2 := by
  have ⟨hc, hlen, hr⟩ := run_called (new_coherent base n) hd
  have hlen := hlen.trans length_replicate
  rw [new_coins] at hr
  have ⟨ha, hm⟩ := Prod.mk.inj hr
  have ⟨orders, ho, hf⟩ := @exists_flushAll _ _ [] hc
  refine ⟨ha, ⟨orders, ho.trans hlen, hf⟩, ?_⟩
  intro orders ho hf
  have ⟨ha', hm'⟩ := flushAll_base hc (ho.trans hlen.symm) hf
  exact ⟨ho ▸ ha', hm'.trans hm⟩

section

def keptOutPoint : COutPoint where
  hash := 1
  n := 0

def keptCoin : Coin where
  out := { nValue := 1, scriptPubKey := [] }
  nHeight := 1
  fCoinBase := false

def emptyBase : CCoinsView where
  getCoin _ := none
  getBestBlock := 0
  finite := finite_none

def keptCalls : List (Nat × CoinsCall) :=
  [(0, .addCoin keptOutPoint keptCoin false), (0, .flush [keptOutPoint]), (1, .getCoin keptOutPoint),
    (1, .spendCoin keptOutPoint), (0, .addCoin keptOutPoint keptCoin false),
    (0, .haveCoin keptOutPoint)]

lemma keptCalls_disciplined : Disciplined (new emptyBase 2) keptCalls := by
  refine ⟨fun _ _ => rfl, ⟨by simp, ?_⟩, ⟨.inr rfl, trivial⟩, ⟨.inr rfl, trivial⟩, fun _ _ => ?_,
    trivial, trivial⟩
  · intro o
    refine mem_singleton.trans (Iff.trans ?_ Finmap.mem_insert.symm)
    exact (or_iff_left Finmap.notMem_empty).symm
  · rfl

-- Both reads find the coin, and once the caches have been flushed it is in the view below.
theorem run_eq_flatRun_kept :
    (run (new emptyBase 2) keptCalls).1 =
      [.done, .done, .coin (some keptCoin), .coin (some keptCoin), .done, .have true] ∧
    ∃ orders, orders.length = 2 ∧
      (run (run (new emptyBase 2) keptCalls).2 (flushAll orders 0)).2.base.unspent keptOutPoint =
        some keptCoin := by
  have ⟨ha, ⟨orders, ho, hd⟩, hf⟩ := run_eq_flatRun emptyBase 2 keptCalls keptCalls_disciplined
  refine ⟨ha.trans (by decide), orders, ho, ?_⟩
  rw [(hf orders ho hd).2]
  decide

end

end CoinsStack

end Taler
