import RasterCategories.Builder
import RasterCategories.Column.Conversion
import RasterCategories.Legend.Access
import RasterCategories.Proofs.Search.Runs
import RasterCategories.Proofs.Legend.Built
import RasterCategories.Proofs.Raster.Cells
import RasterCategories.Proofs.Conversion.History
import RasterCategories.Proofs.Conversion.InPlace
import RasterCategories.Proofs.Conversion.Batch
import RasterCategories.Proofs.Conversion.Return
import RasterCategories.Proofs.Search.Membership
import RasterCategories.Proofs.Search.Repeated
import RasterCategories.Proofs.Legend.Owner
import RasterCategories.Proofs.Legend.Construction
import RasterCategories.Proofs.Category.Covering
import RasterCategories.Proofs.Transform.Inverse
import RasterCategories.Proofs.Conversion.Ordinals
import RasterCategories.Proofs.Conversion.RoundTrip
import RasterCategories.Proofs.Conversion.Landing
import RasterCategories.Proofs.Conversion.Agreement
import RasterCategories.Proofs.Conversion.Identity
import RasterCategories.Proofs.Conversion.Composition
import RasterCategories.Proofs.Conversion.Rebuilding
import RasterCategories.Proofs.Conversion.Equality
import RasterCategories.Proofs.Conversion.StandIn
import RasterCategories.Proofs.Builder.Calls
import RasterCategories.Proofs.Binary64.TotalOrder
import RasterCategories.Proofs.Legend.Hull
import RasterCategories.Proofs.Binary64.OrdinalCode
import RasterCategories.Proofs.Column.Columnwise
import RasterCategories.Proofs.Column.Memory
import RasterCategories.Proofs.Legend.Partition
