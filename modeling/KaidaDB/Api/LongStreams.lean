import KaidaDB.Api.Discovery

/-!
# What discovery is to find

The keys that `discover_variants` and `discover_segments` look under, and that they find all of them:
one entry for each stored init segment and each stored segment, in the order players need.
-/

namespace KaidaDB

variable {F : Type} (ops : FloatOps F) (config : StreamingConfig) (streamId variantId : String)
  (s : IndexState)

/-- The prefix that `discover_variants` builds. -/
def variantsPrefix : String := config.streamPrefix ++ streamId ++ "variants/"

/-- The prefix that `discover_segments` builds. -/
def segmentsPrefix : String := config.streamPrefix ++ streamId ++ "variants/" ++ variantId ++ "/seg-"

/-- The key of a variant's init segment. -/
def initKey (v : String) : String := variantsPrefix config streamId ++ v ++ "/init.mp4"

/-- One variant for each stored init segment, those of high bandwidth first. -/
structure FindsVariants : Prop where
  once : ∀ v, (s.manifests[initKey config streamId v]?).isSome →
    ((discoverVariants config streamId s).1.map VariantInfo.initKey).count (initKey config streamId v) = 1
  only : ∀ info ∈ (discoverVariants config streamId s).1,
    info.initKey = initKey config streamId info.variantId ∧ (s.manifests[info.initKey]?).isSome
  order : (discoverVariants config streamId s).1.Pairwise fun a b => b.bandwidth ≤ a.bandwidth

/-- One segment for each stored key, in the order of indices. -/
structure FindsAllSegments : Prop where
  once : ∀ key, (s.manifests[key]?).isSome →
    startsWith key (segmentsPrefix config streamId variantId) = true →
    ((discoverSegments ops config streamId variantId s).1.map SegmentInfo.key).count key = 1
  only : ∀ segment ∈ (discoverSegments ops config streamId variantId s).1,
    startsWith segment.key (segmentsPrefix config streamId variantId) = true ∧
      (s.manifests[segment.key]?).isSome
  order : (discoverSegments ops config streamId variantId s).1.Pairwise fun a b => a.index ≤ b.index

end KaidaDB
