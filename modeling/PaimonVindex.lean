import PaimonVindex.DiskAnn.QueryRun
import PaimonVindex.Opq
import PaimonVindex.Ivf.SearchResult
import PaimonVindex.Ivf.StreamedLists
import PaimonVindex.Ivf.PqEstimates
import PaimonVindex.DiskAnn.ValidationProgress
import PaimonVindex.DiskAnn.FilteredNodes
import PaimonVindex.Ivf.BatchProgressive
import PaimonVindex.DiskAnn.HeaderCodec
import PaimonVindex.DiskAnn.Canonical
import PaimonVindex.Ivf.RqRoundTrip
import PaimonVindex.Ivf.FlatStorage
import PaimonVindex.EndpointAcceptance
import PaimonVindex.BuildPlan
import PaimonVindex.ShufflerFaults
import PaimonVindex.DiskAnn.SingleFlightPanics
import PaimonVindex.Ivf.PqIndexFresh
import PaimonVindex.Vamana.Prune
import PaimonVindex.Vamana.Rebalance
import PaimonVindex.Ivf.RqRotation
import PaimonVindex.Ivf.BatchPlan
import PaimonVindex.DiskAnn.TrainingPlan
