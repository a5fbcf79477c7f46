import LezFuzzing.Spec.InvariantsCorrect
import LezFuzzing.Spec.GenesisCorrect
import LezFuzzing.Spec.LockstepCorrect
import LezFuzzing.Spec.IntentsCorrect
import LezFuzzing.Spec.CommuteCorrect
import LezFuzzing.Spec.BlockSequenceCorrect
import LezFuzzing.Spec.ReferenceCorrect
import LezFuzzing.Spec.SplitPathCorrect
import LezFuzzing.Spec.SequencerReplayerCorrect
import LezFuzzing.Spec.OrderingCorrect
import LezFuzzing.Spec.ProofBinding
import LezFuzzing.Spec.ConflictingPairCorrect
import LezFuzzing.Spec.PublicEffectsCorrect
import LezFuzzing.Spec.RegistrationCorrect
import LezFuzzing.Spec.InventoryCorrect
import LezFuzzing.Spec.PrivacyNoFalseAlarm
import LezFuzzing.Spec.GeneratorRange
import LezFuzzing.Spec.StateTransitionCorrect
import LezFuzzing.Spec.StateDiffCorrect
import LezFuzzing.Spec.OrderingNoFalseAlarm
import LezFuzzing.Spec.MerkleCorrect
import LezFuzzing.Spec.SignatureTargetsCorrect
import LezFuzzing.Spec.BlockVerificationCorrect
import LezFuzzing.Spec.StatelessTargetsCorrect
import LezFuzzing.Spec.JobPoolCorrect
import LezFuzzing.Spec.CorpusSyncCorrect
import LezFuzzing.Spec.CorpusUpdateCorrect
