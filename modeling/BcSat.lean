import BcSat.Circuit
import BcSat.Justify
import BcSat.Evaluate
import BcSat.Cnf
import BcSat.Coi
import BcSat.Polarity
import BcSat.Acyclicity
import BcSat.Emit
import BcSat.Translate
import BcSat.Store
import BcSat.DependsOn
import BcSat.AcyclicEdits
import BcSat.ChildAssoc
import BcSat.Simplify
import BcSat.SimplifyAcyclic
import BcSat.SimplifyMoves
import BcSat.Share
import BcSat.SortChildren
import BcSat.Normalize
import BcSat.NormalizeSound
import BcSat.NormalizeCounting
import BcSat.NormalizeAtleast
import BcSat.NormalizeAcyclic
import BcSat.ShareAcyclic
import BcSat.NormalizeCall
import BcSat.Main
import BcSat.ShareSound
import BcSat.NormalizeShape
import BcSat.NormalizePass
import BcSat.FrontEnd
import BcSat.SimplifyKeeps
import BcSat.SimplifyKeepsOrAnd
import BcSat.SimplifyKeepsParity
import BcSat.SimplifyKeepsCall
import BcSat.SimplifyTidy
import BcSat.SimplifyTidyParity
import BcSat.SimplifyTidyCall
import BcSat.SimplifyPass
import BcSat.Constants
import BcSat.SimplifyConstants
import BcSat.FrontEndConstants
import BcSat.SimplifyRestores
import BcSat.SimplifyRestoresOrAnd
import BcSat.SimplifyRestoresParity
